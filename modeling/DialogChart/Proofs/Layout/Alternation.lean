import DialogChart.Proofs.Graph.Shape
import DialogChart.Proofs.Layout.Separation

/-!
# Bot and user take turns in columns

In the display graph of a plot the speakers differ along every edge, so a layout that starts with
the bot has the bot in the even columns and the user in the odd ones, however often a turn is met
on the way and whatever cycles there are (`Stacks.suits`).

That a layout starts with the bot is the harder half.  A turn of the user always has a parent, so
it is never a root for want of one.  Where every turn has a parent, the root is the turn with the
smallest id.  Then every turn of the bot is the target of a transition, and its id starts in the
way of nodes; the ids of the user's turns start in the way of transitions, and those come later
in the order of ids.
-/

namespace DialogChart

/-! ### Ids of nodes come before ids of transitions -/

/-- A reference to a node starts in the way of nodes. -/
lemma Reference.prefix_of_node? {r : Reference} {m : String} (h : r.node? = some m) :
    "id#nd".toList <+: m.toList := by
  unfold node? at h
  split at h
  · rename_i hkind
    cases h
    unfold kind at hkind
    split at hkind
    · rename_i start kind hfound
      have hmem : (start, kind) ∈ starts := List.mem_of_find?_eq_some hfound
      have hstart : start.toList.isPrefixOf r.raw.toList = true :=
        List.find?_some (p := fun s : String × Kind => s.1.toList.isPrefixOf r.raw.toList) hfound
      subst hkind
      have hnode : start = "id#nd" := by simpa [starts] using hmem
      rw [hnode] at hstart
      exact List.isPrefixOf_iff_prefix.mp hstart
    · cases hkind
  · cases h

/-- The target of a transition starts in the way of nodes. -/
lemma Plot.Live.prefix_target {plot : Plot} {t l m : String} (h : plot.Live t l m) :
    "id#nd".toList <+: m.toList := by
  obtain ⟨transition, -, hm, -, -⟩ := h
  exact Reference.prefix_of_node? hm

/-- An id that starts in the way of nodes lies below one that starts in the way of transitions. -/
lemma lt_of_prefixes {a b : String} (ha : "id#nd".toList <+: a.toList)
    (hb : "id#tr".toList <+: b.toList) : a < b := by
  obtain ⟨resta, ha⟩ := ha
  obtain ⟨restb, hb⟩ := hb
  have hchar : 'n' < 't' := by decide
  rw [String.lt_iff_toList_lt, ← ha, ← hb]
  simp [List.cons_lt_cons_iff, hchar]

/-! ### Columns of a stack -/

/-- The bot speaks in even columns, and the user in odd ones. -/
def Speaker.Suits (speaker : Speaker) (column : Nat) : Prop :=
  (speaker = .bot → Even column) ∧ (speaker = .user → Odd column)

/-- In the next column the other one speaks. -/
lemma Speaker.Suits.next {a b : Speaker} {column : Nat} (h : a.Suits column) (hab : a ≠ b) :
    b.Suits (column + 1) := by
  obtain ⟨hbot, huser⟩ := h
  cases a with
  | bot =>
    cases b with
    | bot => exact absurd rfl hab
    | user => exact ⟨fun hb => (nomatch hb), fun _ => (hbot rfl).add_one⟩
  | user =>
    cases b with
    | bot => exact ⟨fun _ => (huser rfl).add_one, fun hb => (nomatch hb)⟩
    | user => exact absurd rfl hab

namespace Packing

variable {α : Type} {n : Nat} [Coordinate α] {adj : Adjacency n}
  {ranks : Option (Vector (Option α) n)} {spacing : Spacing α}

/-- If the speakers differ along every edge, and the siblings suit their column, then whatever a
stack places suits its column. -/
lemma Stacks.suits {voice : Fin n → Speaker}
    (hvoice : ∀ i, ∀ j ∈ adj.children.get i, voice i ≠ voice j)
    {slots last : Vector (Slot α) n} {siblings : List (Fin n)} {above : α} {column : Nat}
    {height total : α}
    (h : Stacks adj ranks spacing slots siblings above column height last total)
    (hsiblings : ∀ i ∈ siblings, (voice i).Suits column)
    {j : Fin n} {c : Nat} {p : Point α} (hj : Gains slots last j c p) : (voice j).Suits c := by
  induction h with
  | done => exact absurd hj Gains.irrefl
  | skip _ _ ih =>
    rw [List.forall_mem_cons] at hsiblings
    exact ih hsiblings.2 hj
  | @put _ _ _ i _ _ column _ _ _ _ _ hrest ihInner ihRest =>
    rw [List.forall_mem_cons] at hsiblings
    obtain ⟨hfirst, hothers⟩ := hsiblings
    rcases hj.cases_put hrest with ⟨rfl, rfl, -⟩ | hj | hj
    · exact hfirst
    · refine ihInner (fun k hk => ?_) hj
      have hchild : k ∈ adj.children.get i := mem_ordered.mp hk
      exact hfirst.next (hvoice i k hchild)
    · exact ihRest hothers hj

/-- If the speakers differ along every edge, and the bot speaks first, then every turn that is
placed suits its column. -/
lemma run_suits {voice : Fin n → Speaker} {roots : List (Fin n)}
    (hvoice : ∀ i, ∀ j ∈ adj.children.get i, voice i ≠ voice j)
    (hroots : ∀ r ∈ roots, voice r = .bot) {j : Fin n} {c : Nat} {p : Point α}
    (h : (run adj roots ranks spacing).get j = .placed c p) : (voice j).Suits c := by
  refine (stacks_stack adj ranks spacing _ _ _ _ _).suits hvoice (fun r hr => ?_)
    (gains_of_run h)
  have hbot : voice r = .bot := hroots r (mem_ordered.mp hr)
  rw [hbot]
  exact ⟨fun _ => Even.zero, fun hb => nomatch hb⟩

end Packing

/-! ### The display graph starts with the bot -/

/-- An edge leads from one turn to another exactly if it is there between their ids. -/
lemma Graph.leads_iff_hasEdge {g : Graph} {i j : Fin g.size} :
    g.Leads i j ↔ g.hasEdge (g.turns.get i).id (g.turns.get j).id = true := by
  unfold Leads hasEdge
  rw [List.contains_iff_mem]
  constructor
  · rintro ⟨⟨a, b⟩, he, rfl, rfl⟩
    exact he
  · intro he
    exact ⟨_, he, rfl, rfl⟩

namespace Derivation

variable {plot : Plot} {mode : GlobalTransitions}

/-- The display graph has distinct ids. -/
lemma uniqueIds_toGraph (plot : Plot) (mode : GlobalTransitions) :
    (plot.toGraph mode).UniqueIds :=
  nodup_ids_toGraph plot mode

/-- The speakers of a turn and its child are different. -/
lemma speaker_ne_of_child (hkeys : plot.KeysApart) (i j : Fin (plot.toGraph mode).size)
    (h : j ∈ (plot.toGraph mode).adjacency.children.get i) :
    ((plot.toGraph mode).turns.get i).speaker ≠ ((plot.toGraph mode).turns.get j).speaker := by
  have hleads := (uniqueIds_toGraph plot mode).mem_children_iff.mp h
  exact speaker_ne_of_edge hkeys (List.get_mem _ i) (List.get_mem _ j)
    (Graph.leads_iff_hasEdge.mp hleads)

/-- A turn of the user has a parent, and it is one of the bot. -/
lemma exists_parent_of_user (hkeys : plot.KeysApart) {j : Fin (plot.toGraph mode).size}
    (huser : ((plot.toGraph mode).turns.get j).speaker = .user) :
    ∃ i ∈ (plot.toGraph mode).adjacency.parents.get j,
      ((plot.toGraph mode).turns.get i).speaker = .bot := by
  obtain ⟨n, hedge⟩ := exists_edge_to_user (List.get_mem _ j) huser
  obtain ⟨t, ht, rfl⟩ := List.mem_map.mp (ends_mem_toGraph hedge).1
  obtain ⟨i, rfl⟩ := List.get_of_mem ht
  have hleads : (plot.toGraph mode).Leads i j := Graph.leads_iff_hasEdge.mpr hedge
  refine ⟨i, (uniqueIds_toGraph plot mode).mem_parents_iff.mpr hleads, ?_⟩
  have hne := speaker_ne_of_edge hkeys (List.get_mem _ i) (List.get_mem _ j) hedge
  rw [huser] at hne
  cases hspeaker : ((plot.toGraph mode).turns.get i).speaker with
  | bot => rfl
  | user => exact absurd hspeaker hne

/-- The id of a turn of the bot that has a parent starts in the way of nodes. -/
lemma prefix_of_bot (hkeys : plot.KeysApart) {j : Fin (plot.toGraph mode).size}
    (hbot : ((plot.toGraph mode).turns.get j).speaker = .bot)
    (hparent : (plot.toGraph mode).adjacency.parents.get j ≠ []) :
    "id#nd".toList <+: ((plot.toGraph mode).turns.get j).id.toList := by
  obtain ⟨i, hi⟩ := List.exists_mem_of_ne_nil _ hparent
  have hleads := (uniqueIds_toGraph plot mode).mem_parents_iff.mp hi
  obtain ⟨u, l, hlive⟩ :=
    exists_live_to_bot hkeys (List.get_mem _ j) hbot (Graph.leads_iff_hasEdge.mp hleads)
  exact hlive.prefix_target

/-- The roots of the display graph are turns of the bot, also where a turn with the smallest id
stands in for missing roots. -/
lemma speaker_of_root (hkeys : plot.KeysApart)
    (hnames : ∀ t ∈ plot.transitions.names, "id#tr".toList <+: t.toList)
    {r : Fin (plot.toGraph mode).size}
    (hr : r ∈ (plot.toGraph mode).roots (plot.toGraph mode).adjacency) :
    ((plot.toGraph mode).turns.get r).speaker = .bot := by
  cases hspeaker : ((plot.toGraph mode).turns.get r).speaker with
  | bot => rfl
  | user =>
    exfalso
    obtain ⟨i, hi, hbot⟩ := exists_parent_of_user hkeys hspeaker
    by_cases horphans : (plot.toGraph mode).adjacency.orphans = []
    · -- Every turn has a parent, and the parent of the root has a smaller id than the root.
      rw [Graph.roots_of_orphans_eq_nil horphans, Option.mem_toList] at hr
      have hparent : (plot.toGraph mode).adjacency.parents.get i ≠ [] := by
        intro hnone
        have hmem := Adjacency.mem_orphans.mpr hnone
        rw [horphans] at hmem
        cases hmem
      have hnode := prefix_of_bot hkeys hbot hparent
      have htransition : "id#tr".toList <+: ((plot.toGraph mode).turns.get r).id.toList := by
        rcases turn_toGraph (List.get_mem _ r) with ⟨hbot', -⟩ | ⟨-, m, hlive⟩
        · rw [hspeaker] at hbot'
          cases hbot'
        · exact hnames _ hlive.mem_names
      have hlt := lt_of_prefixes hnode htransition
      have hle := Graph.smallest?_le hr i
      exact absurd hlt (not_lt_of_ge hle)
    · rw [Graph.roots_of_orphans_ne_nil horphans, Adjacency.mem_orphans] at hr
      rw [hr] at hi
      cases hi

end Derivation

/-! ### Layouts of display graphs -/

namespace Layout

variable {α : Type} [Coordinate α]

/-- Bot and user take turns in columns.  In a plot whose nodes and transitions have different ids,
and whose transitions have ids that start in the way of transitions, the layout of the display
graph starts with turns of the bot, and every position in it belongs to a turn that was placed at
the left edge of a column: an even one for the bot and an odd one for the user.  This holds in
both modes, for both engines and for all settings. -/
theorem columns_alternate (plot : Plot) (hkeys : plot.KeysApart)
    (hnames : ∀ t ∈ plot.transitions.names, "id#tr".toList <+: t.toList)
    (mode : GlobalTransitions) (engine : Engine) (settings : LayoutSettings α) :
    let g := plot.toGraph mode
    (∀ r ∈ g.roots g.adjacency, (g.turns.get r).speaker = .bot) ∧
    ∀ (i : Fin g.size) (corner : Point α),
      (ofGraph engine settings g).position? (g.turns.get i).id = some corner →
      ∃ column : Nat, (slots engine settings g).get i = .placed column corner ∧
        corner.x = Coordinate.ofCount column *
          (settings.spacing.nodeSize.width + settings.spacing.columnGap) ∧
        ((g.turns.get i).speaker = .bot → Even column) ∧
        ((g.turns.get i).speaker = .user → Odd column) := by
  intro g
  have hg : g.UniqueIds := Derivation.uniqueIds_toGraph plot mode
  have hroots : ∀ r ∈ g.roots g.adjacency, (g.turns.get r).speaker = .bot :=
    fun r hr => Derivation.speaker_of_root hkeys hnames hr
  refine ⟨hroots, ?_⟩
  intro i corner hposition
  rw [ofGraph_eq, position?_turn hg] at hposition
  obtain ⟨column, hslot⟩ := Packing.Slot.corner?_eq_some_iff.mp hposition
  have hvoice : ∀ i, ∀ j ∈ g.adjacency.children.get i,
      (g.turns.get i).speaker ≠ (g.turns.get j).speaker :=
    fun i j hj => Derivation.speaker_ne_of_child hkeys i j hj
  have hsuits := Packing.run_suits hvoice hroots hslot
  exact ⟨column, hslot, Packing.run_x hslot, hsuits.1, hsuits.2⟩

/-- Two nodes that lead to each other, so that every turn has a parent, and a global transition: the
layout starts with the node of the smallest id, and a transition stands in an odd column. -/
theorem columns_alternate_cycle :
    let plot : Plot :=
      { nodes := .ofList [
          ("id#nd_b", { role := .regular, transitions := ["id#tr_1"] }),
          ("id#nd_a", { role := .regular, transitions := ["id#tr_2"] }),
          ("id#nd_g", { role := .global, transitions := ["id#tr_0"] })]
        transitions := .ofList [
          ("id#tr_0", { label := ⟨"id#nd_a"⟩ }), ("id#tr_1", { label := ⟨"id#nd_a"⟩ }),
          ("id#tr_2", { label := ⟨"id#nd_b"⟩ })] }
    let g := plot.toGraph .fanOut
    let settings : LayoutSettings ℚ := ⟨⟨⟨160, 69⟩, 100, 40⟩, ⟨0, 0, 0, none⟩⟩
    plot.KeysApart ∧ (∀ t ∈ plot.transitions.names, "id#tr".toList <+: t.toList) ∧
      g.adjacency.orphans = [] ∧
      (∀ r ∈ g.roots g.adjacency, (g.turns.get r).speaker = .bot) ∧
      ∃ (i : Fin g.size) (column : Nat) (corner : Point ℚ), (g.turns.get i).id = "id#tr_0" ∧
        (slots .basic settings g).get i = .placed column corner ∧ Odd column := by
  intro plot g settings
  have hkeys : plot.KeysApart := by
    unfold Plot.KeysApart
    decide
  have hnames : ∀ t ∈ plot.transitions.names, "id#tr".toList <+: t.toList := by decide
  have hgraph : g =
      { turns := [⟨"id#nd_b", "noname", .bot, "noflow"⟩, ⟨"id#tr_1", "unknown", .user, "noflow"⟩,
          ⟨"id#nd_a", "noname", .bot, "noflow"⟩, ⟨"id#tr_0", "unknown", .user, "noflow"⟩,
          ⟨"id#tr_2", "unknown", .user, "noflow"⟩]
        edges := [⟨"id#nd_b", "id#tr_1"⟩, ⟨"id#tr_1", "id#nd_a"⟩, ⟨"id#nd_b", "id#tr_0"⟩,
          ⟨"id#tr_0", "id#nd_a"⟩, ⟨"id#nd_a", "id#tr_2"⟩, ⟨"id#tr_2", "id#nd_b"⟩] } := by
    decide
  have hposition : (ofGraph .basic settings g).position? "id#tr_0" = some ⟨780, 149⟩ := by
    rw [hgraph]
    cbv
  have hturn : (⟨"id#tr_0", "unknown", .user, "noflow"⟩ : Turn) ∈ g.turns := by
    rw [hgraph]
    decide
  obtain ⟨i, hi⟩ := List.get_of_mem hturn
  have horphans : g.adjacency.orphans = [] := by
    rw [hgraph]
    decide
  obtain ⟨hroots, hcolumns⟩ := columns_alternate plot hkeys hnames .fanOut .basic settings
  obtain ⟨column, hslot, -, -, hodd⟩ := hcolumns i ⟨780, 149⟩ (by rw [hi, hposition])
  exact ⟨hkeys, hnames, horphans, hroots, i, column, _, by rw [hi], hslot, hodd (by rw [hi])⟩

end Layout

end DialogChart
