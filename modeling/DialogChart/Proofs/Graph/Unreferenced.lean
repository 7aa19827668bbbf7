import DialogChart.Proofs.Graph.Dialog

/-!
# Records that nothing refers to

The derivation without fan-out starts from the participating nodes and follows references: to the
transitions that these nodes list, to the nodes in the labels of the transitions, to the links in
their conditions and to the definitions behind the links.  Records that it does not come to have no
effect.  `Plot.bare` deletes all of them at once, and `Plot.Trims` says that a plot was got from
another one by deleting some of them.

Deleting a record may leave a reference without a record, which the derivation would notice.  So
the point is that every lookup that is made finds what it found before; this is shown along the
references, for one table after the other, and comes to `Trims.step`: a listed transition has the
same step in both plots.  The main statement is `unreferenced_records_never_matter`.
-/

namespace DialogChart

/-! ### Some of the entries of a table -/

namespace Table

variable {α : Type}

/-- The entries that are to be kept, in order. -/
def filter (t : Table α) (keep : String → α → Bool) : Table α where
  entries := t.entries.filter fun e => keep e.1 e.2
  nodup := (List.filter_sublist.map Prod.fst).nodup t.nodup

/-- One table has some of the entries of another, in the same order. -/
def Within (less more : Table α) : Prop :=
  less.entries.Sublist more.entries

/-- The entries that are kept are some of the entries. -/
lemma filter_within (t : Table α) (keep : String → α → Bool) : (t.filter keep).Within t :=
  List.filter_sublist

/-- Of two choices of entries the larger one has the smaller one in it. -/
lemma filter_within_filter {t : Table α} {keep keep' : String → α → Bool}
    (h : ∀ name ∈ (t.filter keep).names, ∀ a, keep' name a = true) :
    (t.filter keep).Within (t.filter keep') := by
  have hboth : (t.filter keep).entries.filter (fun e => keep' e.1 e.2) = (t.filter keep).entries :=
    List.filter_eq_self.mpr fun e he => h e.1 (List.mem_map_of_mem he) e.2
  unfold Within
  rw [← hboth]
  exact List.filter_sublist.filter _

/-- What is found in a part of a table is found in the table. -/
lemma Within.get? {less more : Table α} (h : less.Within more) {name : String} {a : α}
    (hget : less.get? name = some a) : more.get? name = some a :=
  get?_eq_some_iff.mpr (h.subset (get?_eq_some_iff.mp hget))

/-- A record is found under a name if it was found before and was kept. -/
lemma get?_filter_of_keep {t : Table α} {keep : String → α → Bool} {name : String} {a : α}
    (hget : t.get? name = some a) (hkeep : keep name a = true) :
    (t.filter keep).get? name = some a :=
  get?_eq_some_iff.mpr (List.mem_filter.mpr ⟨get?_eq_some_iff.mp hget, hkeep⟩)

/-- Between a table and a part of it that keeps whatever stands under a name, the same is found
under this name. -/
lemma get?_eq_of_between {t less : Table α} {keep : String → α → Bool}
    (hlow : (t.filter keep).Within less) (hhigh : less.Within t) {name : String}
    (hkeep : ∀ a, t.get? name = some a → keep name a = true) : less.get? name = t.get? name := by
  cases hget : t.get? name with
  | some a => exact hlow.get? (get?_filter_of_keep hget (hkeep a hget))
  | none =>
    by_contra hfound
    obtain ⟨a, ha⟩ := Option.ne_none_iff_exists'.mp hfound
    rw [hhigh.get? ha] at hget
    exact Option.some_ne_none a hget

end Table

/-- A reference points at the record of the given kind under an id. -/
def Reference.pointsTo (r : Reference) (kind : Reference.Kind) (id : String) : Bool :=
  r.kind = kind && r.raw = id

/-- A reference points at what its text names. -/
lemma Reference.pointsTo_raw (r : Reference) {kind : Reference.Kind} (h : r.kind = kind) :
    r.pointsTo kind r.raw = true := by
  simp [pointsTo, h]

/-- The node that a reference points at. -/
lemma Reference.pointsTo_of_node? {r : Reference} {id : String} (h : r.node? = some id) :
    r.pointsTo .node id = true := by
  unfold node? at h
  split at h
  · rename_i hkind
    obtain rfl := Option.some.inj h
    exact r.pointsTo_raw hkind
  · cases h

/-- What adds nothing may be left out before. -/
lemma flatMap_ite_nil {α β : Type} (p : α → Bool) (f : α → List β) (items : List α) :
    (items.flatMap fun a => if p a then f a else []) = (items.filter p).flatMap f := by
  induction items with
  | nil => rfl
  | cons a rest ih =>
    rw [List.flatMap_cons, List.filter_cons, ih]
    split <;> rfl

namespace Plot

open DialogChart.Derivation (participates)

/-! ### What something refers to -/

/-- The transitions that the participating nodes list. -/
def listed (plot : Plot) : List String :=
  (plot.nodes.records.filter participates).flatMap (·.transitions)

/-- A plot without the records that nothing refers to.  Of the transitions those are left that
participating nodes list; of the links those that are the condition of a transition that is left;
of the definitions those that are the object of a link that is left; and of the nodes the
participating ones and those that are the label of a transition that is left. -/
def bare (plot : Plot) : Plot :=
  let transitions := plot.transitions.filter fun t _ => t ∈ plot.listed
  let links := plot.links.filter fun l _ =>
    transitions.records.any fun r => r.condition.any (·.pointsTo .link l)
  let definitions := plot.definitions.filter fun d _ =>
    links.records.any (·.object.pointsTo .definition d)
  let nodes := plot.nodes.filter fun n node =>
    participates node || transitions.records.any (·.label.pointsTo .node n)
  { plot with
    nodes := nodes
    transitions := transitions
    links := links
    definitions := definitions }

/-- A plot without some of the records of another plot to which nothing refers there. -/
structure Trims (less plot : Plot) : Prop where
  flows : less.flows = plot.flows
  nodes : plot.bare.nodes.Within less.nodes ∧ less.nodes.Within plot.nodes
  transitions :
    plot.bare.transitions.Within less.transitions ∧ less.transitions.Within plot.transitions
  links : plot.bare.links.Within less.links ∧ less.links.Within plot.links
  definitions :
    plot.bare.definitions.Within less.definitions ∧ less.definitions.Within plot.definitions

/-- All records to which nothing refers may be deleted. -/
lemma bare_trims (plot : Plot) : plot.bare.Trims plot where
  flows := rfl
  nodes := ⟨List.Sublist.refl _, Table.filter_within _ _⟩
  transitions := ⟨List.Sublist.refl _, Table.filter_within _ _⟩
  links := ⟨List.Sublist.refl _, Table.filter_within _ _⟩
  definitions := ⟨List.Sublist.refl _, Table.filter_within _ _⟩

/-- The nodes to which nothing refers may be deleted, while all other records stay. -/
lemma bare_nodes_trims (plot : Plot) : { plot with nodes := plot.bare.nodes }.Trims plot where
  flows := rfl
  nodes := ⟨List.Sublist.refl _, Table.filter_within _ _⟩
  transitions := ⟨Table.filter_within _ _, List.Sublist.refl _⟩
  links := ⟨Table.filter_within _ _, List.Sublist.refl _⟩
  definitions := ⟨Table.filter_within _ _, List.Sublist.refl _⟩

/-- What a participating node lists is listed. -/
lemma mem_listed {plot : Plot} {id t : String} {node : Node}
    (hentry : (id, node) ∈ plot.nodes.entries) (hpart : participates node = true)
    (ht : t ∈ node.transitions) : t ∈ plot.listed := by
  have hrecord : node ∈ plot.nodes.records := List.mem_map.mpr ⟨(id, node), hentry, rfl⟩
  exact List.mem_flatMap.mpr ⟨node, List.mem_filter.mpr ⟨hrecord, hpart⟩, ht⟩

/-- The record of a listed transition is left. -/
lemma mem_bare_transitions {plot : Plot} {t : String} (ht : t ∈ plot.listed) {r : Transition}
    (hr : plot.transitions.get? t = some r) : r ∈ plot.bare.transitions.records := by
  have hleft : plot.bare.transitions.get? t = some r :=
    Table.get?_filter_of_keep hr (decide_eq_true ht)
  exact List.mem_map.mpr ⟨(t, r), Table.get?_eq_some_iff.mp hleft, rfl⟩

/-- The link in the condition of a listed transition is the condition of one that is left. -/
lemma any_pointsTo_link {plot : Plot} {t : String} (ht : t ∈ plot.listed) {r : Transition}
    (hr : plot.transitions.get? t = some r) {c : Reference} (hc : r.condition = some c)
    (hkind : c.kind = .link) :
    (plot.bare.transitions.records.any fun r => r.condition.any (·.pointsTo .link c.raw)) =
      true := by
  refine List.any_eq_true.mpr ⟨r, mem_bare_transitions ht hr, ?_⟩
  rw [hc]
  exact c.pointsTo_raw hkind

/-- Without fan-out only the participating nodes add something to the graph. -/
lemma emissions_omit (plot : Plot) :
    Derivation.emissions plot .omit =
      (plot.nodes.entries.filter fun e => participates e.2).flatMap fun e =>
        Derivation.sourceEmissions plot [] e.1 e.2 :=
  flatMap_ite_nil (fun e : String × Node => participates e.2)
    (fun e => Derivation.sourceEmissions plot [] e.1 e.2) plot.nodes.entries

/-! ### Lookups along the references -/

namespace Trims

variable {less plot : Plot} (h : less.Trims plot)

include h

/-- A listed transition has the same record. -/
lemma transition {t : String} (ht : t ∈ plot.listed) :
    less.transitions.get? t = plot.transitions.get? t :=
  Table.get?_eq_of_between h.transitions.1 h.transitions.2 fun _ _ => decide_eq_true ht

/-- The label of a listed transition finds the same node. -/
lemma node {t : String} (ht : t ∈ plot.listed) {r : Transition}
    (hr : plot.transitions.get? t = some r) {m : String} (hm : r.label.node? = some m) :
    less.nodes.get? m = plot.nodes.get? m := by
  refine Table.get?_eq_of_between h.nodes.1 h.nodes.2 fun node _ => ?_
  rw [Bool.or_eq_true]
  exact .inr (List.any_eq_true.mpr
    ⟨r, mem_bare_transitions ht hr, Reference.pointsTo_of_node? hm⟩)

/-- The condition of a listed transition finds the same link. -/
lemma link {t : String} (ht : t ∈ plot.listed) {r : Transition}
    (hr : plot.transitions.get? t = some r) {c : Reference} (hc : r.condition = some c)
    (hkind : c.kind = .link) : less.links.get? c.raw = plot.links.get? c.raw :=
  Table.get?_eq_of_between h.links.1 h.links.2 fun _ _ => any_pointsTo_link ht hr hc hkind

/-- The link in the condition of a listed transition finds the same definition. -/
lemma definition {t : String} (ht : t ∈ plot.listed) {r : Transition}
    (hr : plot.transitions.get? t = some r) {c : Reference} (hc : r.condition = some c)
    (hkind : c.kind = .link) {link : Link} (hlink : plot.links.get? c.raw = some link)
    (hobject : link.object.kind = .definition) :
    less.definitions.get? link.object.raw = plot.definitions.get? link.object.raw := by
  have hkept : plot.bare.links.get? c.raw = some link :=
    Table.get?_filter_of_keep hlink (any_pointsTo_link ht hr hc hkind)
  refine Table.get?_eq_of_between h.definitions.1 h.definitions.2 fun _ _ => ?_
  refine List.any_eq_true.mpr ⟨link, ?_, link.object.pointsTo_raw hobject⟩
  exact List.mem_map.mpr ⟨(c.raw, link), Table.get?_eq_some_iff.mp hkept, rfl⟩

/-- The condition of a listed transition names the same definition, or none for the same reason. -/
lemma definitionName {t : String} (ht : t ∈ plot.listed) {r : Transition}
    (hr : plot.transitions.get? t = some r) :
    less.definitionName r.condition = plot.definitionName r.condition := by
  cases hc : r.condition with
  | none => rfl
  | some c =>
    by_cases hkind : c.kind = .link
    · simp only [Plot.definitionName, if_pos hkind, h.link ht hr hc hkind]
      cases hlink : plot.links.get? c.raw with
      | none => rfl
      | some link =>
        by_cases hobject : link.object.kind = .definition
        · simp only [if_pos hobject, h.definition ht hr hc hkind hlink hobject]
        · simp only [if_neg hobject]
    · simp only [Plot.definitionName, if_neg hkind]

/-- A listed transition has the same step, and the same happens on the way. -/
lemma step {t : String} (ht : t ∈ plot.listed) :
    Derivation.step less t = Derivation.step plot t := by
  unfold Derivation.step
  rw [h.transition ht]
  cases hr : plot.transitions.get? t with
  | none => rfl
  | some r =>
    have htarget : (r.label.node?.bind fun id => (less.nodes.get? id).map fun n => (id, n)) =
        r.label.node?.bind fun id => (plot.nodes.get? id).map fun n => (id, n) := by
      refine Option.bind_congr fun m hm => ?_
      rw [h.node ht hr hm]
    simp only [htarget, h.definitionName ht hr]

/-! ### The graph -/

/-- The participating nodes are the same. -/
lemma participating :
    less.nodes.entries.filter (fun e => participates e.2) =
      plot.nodes.entries.filter fun e => participates e.2 := by
  have hbare : plot.bare.nodes.entries.filter (fun e => participates e.2) =
      plot.nodes.entries.filter fun e => participates e.2 := by
    refine (List.filter_filter ..).trans (List.filter_congr fun e _ => ?_)
    cases hpart : participates e.2 <;> simp [hpart]
  refine List.Sublist.antisymm (h.nodes.2.filter _) ?_
  rw [← hbare]
  exact h.nodes.1.filter _

/-- A node is shown in the same flow. -/
lemma flowName (n : String) : Derivation.flowName less n = Derivation.flowName plot n := by
  unfold Derivation.flowName Derivation.flowIndex
  rw [h.flows]

/-- A participating node adds the same to the graph. -/
lemma sourceEmissions {id : String} {node : Node} (hentry : (id, node) ∈ plot.nodes.entries)
    (hpart : participates node = true) :
    Derivation.sourceEmissions less [] id node = Derivation.sourceEmissions plot [] id node := by
  have hsteps : Derivation.liveSteps less node = Derivation.liveSteps plot node := by
    refine List.filterMap_congr fun t ht => ?_
    rw [h.step (mem_listed hentry hpart ht)]
  have hturn : ∀ n node, Derivation.nodeTurn less n node = Derivation.nodeTurn plot n node := by
    intro n node
    unfold Derivation.nodeTurn
    rw [h.flowName]
  unfold Derivation.sourceEmissions Derivation.stepEmissions
  simp only [hsteps, hturn, h.flowName]

/-- Without fan-out the same is added to the empty graph. -/
lemma emissions : Derivation.emissions less .omit = Derivation.emissions plot .omit := by
  rw [emissions_omit, emissions_omit, h.participating]
  refine List.flatMap_congr fun e he => ?_
  obtain ⟨hentry, hpart⟩ := List.mem_filter.mp he
  exact h.sourceEmissions hentry hpart

/-- Without fan-out the display graph is the same. -/
lemma toGraph_eq : less.toGraph .omit = plot.toGraph .omit := by
  rw [Derivation.toGraph_eq_draw, Derivation.toGraph_eq_draw, h.emissions]

end Trims

/-- Records that nothing refers to never matter.  Without fan-out, and for every plot: the display
graph stays the same, with its turns and edges in the same order, when all these records are
deleted from all tables at once; when only the nodes are deleted that neither participate nor are
the label of a listed transition, whatever their role; and when any choice of such records is
deleted. -/
theorem unreferenced_records_never_matter (plot : Plot) :
    plot.bare.toGraph .omit = plot.toGraph .omit ∧
      { plot with nodes := plot.bare.nodes }.toGraph .omit = plot.toGraph .omit ∧
      ∀ less : Plot, less.Trims plot → less.toGraph .omit = plot.toGraph .omit :=
  ⟨plot.bare_trims.toGraph_eq, plot.bare_nodes_trims.toGraph_eq, fun _ h => h.toGraph_eq⟩

/-- One regular node with a transition, its target, an idle node, and a global and a per-flow node
with transitions, links and definitions of their own.  Of each table only what the one transition
comes to is left.  Without the global node and the other definition, while the link to this
definition stays and leads nowhere, the graph is the same. -/
theorem unreferenced_records_never_matter_dangling :
    let plot : Plot :=
      { definitions := .ofList [("id#df_1", { name := "yes" }), ("id#df_2", { name := "no" })]
        nodes := .ofList [
          ("id#nd_g", { role := .global, transitions := ["id#tr_2"] }),
          ("id#nd_a", { role := .regular, transitions := ["id#tr_1"] }),
          ("id#nd_b", { role := .regular }), ("id#nd_c", { role := .regular }),
          ("id#nd_l", { role := .perFlow, transitions := ["id#tr_2"] })]
        transitions := .ofList [
          ("id#tr_1", { label := ⟨"id#nd_b"⟩, condition := some ⟨"id#ln_1"⟩ }),
          ("id#tr_2", { label := ⟨"id#nd_c"⟩, condition := some ⟨"id#ln_2"⟩ })]
        links := .ofList [("id#ln_1", { object := ⟨"id#df_1"⟩ }),
          ("id#ln_2", { object := ⟨"id#df_2"⟩ })] }
    let less : Plot :=
      { plot with
        definitions := plot.definitions.filter fun d _ => d ≠ "id#df_2"
        nodes := plot.nodes.filter fun n _ => n ≠ "id#nd_g" }
    plot.bare.nodes.names = ["id#nd_a", "id#nd_b"] ∧
      plot.bare.transitions.names = ["id#tr_1"] ∧ plot.bare.links.names = ["id#ln_1"] ∧
      plot.bare.definitions.names = ["id#df_1"] ∧
      less.Trims plot ∧ less.toGraph .omit = plot.toGraph .omit := by
  intro plot less
  have hnodes : plot.bare.nodes.names = ["id#nd_a", "id#nd_b"] := by decide
  have hdefinitions : plot.bare.definitions.names = ["id#df_1"] := by decide
  have htrims : less.Trims plot := by
    refine ⟨rfl, ⟨Table.filter_within_filter ?_, Table.filter_within _ _⟩,
      ⟨Table.filter_within _ _, .refl _⟩, ⟨Table.filter_within _ _, .refl _⟩,
      ⟨Table.filter_within_filter ?_, Table.filter_within _ _⟩⟩
    · intro name hname _
      have hleft : name ∈ ["id#nd_a", "id#nd_b"] := hnodes ▸ hname
      revert name
      decide
    · intro name hname _
      have hleft : name ∈ ["id#df_1"] := hdefinitions ▸ hname
      revert name
      decide
  exact ⟨hnodes, by decide, by decide, hdefinitions, htrims,
    (unreferenced_records_never_matter plot).2.2 less htrims⟩

end Plot

end DialogChart
