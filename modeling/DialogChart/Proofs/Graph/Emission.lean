import DialogChart.Graph.Derivation
import DialogChart.Proofs.FirstOccurrence

/-!
# The derivation as a list of emissions

The display graph of a plot is drawn step by step: turns and edges are added one after the other,
and what is there already is not added again.  This file separates what is added from the adding.
`emissions` lists, without any state, the turns and edges that a plot gives rise to, in order, and
`draw` adds such a list to a graph.  The main statement is `toGraph_eq_draw`: the display graph is
drawn from the emissions.  What a drawing holds is said without the adding, too: the first turn
under each id and the first occurrence of each edge (`draw_eq_firsts`).

The derivation keeps one table of the transitions that are shown, while the emissions of a node do
not know of other nodes.  Both agree because the names of the nodes are distinct (`foldl_addEntry`).
-/

namespace DialogChart

namespace Derivation

/-! ### Emissions -/

/-- What is added to a graph: a turn or an edge. -/
inductive Emission where
  | turn (t : Turn)
  | edge (e : Edge)

/-- Add a turn, unless its id is taken, or an edge, unless it is there. -/
def Emission.addTo (g : Graph) : Emission → Graph
  | .turn t =>
    if g.turns.any (·.id = t.id) then g else { g with turns := g.turns ++ [t] }
  | .edge e => if g.edges.contains e then g else { g with edges := g.edges ++ [e] }

/-- Add emissions one after the other. -/
def draw (g : Graph) (emissions : List Emission) : Graph :=
  emissions.foldl Emission.addTo g

/-- The turn of the bot that shows a node. -/
def nodeTurn (plot : Plot) (id : String) (node : Node) : Turn :=
  ⟨id, node.name.getD noName, .bot, flowName plot id⟩

/-- What a step from a node adds. -/
def stepEmissions (plot : Plot) (source flow : String) (s : Step) : List Emission :=
  [.edge ⟨source, s.transition⟩, .turn ⟨s.transition, s.label, .user, flow⟩,
    .turn (nodeTurn plot s.target s.node), .edge ⟨s.transition, s.target⟩]

/-- The steps of a node, for those of its transitions that lead to a known node. -/
def liveSteps (plot : Plot) (node : Node) : List Step :=
  node.transitions.filterMap fun t => (step plot t).1

/-- The first of the shown steps of a node with the same target and label as a step. -/
def twin? (shown : List Step) (s : Step) : Option Step :=
  shown.find? fun other => other.target = s.target ∧ other.label = s.label

/-- Of steps with the same target and label only the first one is kept; `shown` are those that
were kept before. -/
def collapse (shown : List Step) : List Step → List Step
  | [] => []
  | s :: rest =>
    match twin? shown s with
    | some _ => collapse shown rest
    | none => s :: collapse (shown ++ [s]) rest

/-- The steps that the global nodes contribute, each with the flow of its node. -/
def globals (plot : Plot) : GlobalTransitions → List (Step × String)
  | .omit => []
  | .fanOut => plot.nodes.entries.flatMap fun (id, node) =>
    if node.role = .global then (liveSteps plot node).map (·, flowName plot id) else []

/-- What a participating node adds: its turn, its own steps and the global ones. -/
def sourceEmissions (plot : Plot) (globals : List (Step × String)) (id : String) (node : Node) :
    List Emission :=
  .turn (nodeTurn plot id node) ::
    ((collapse [] (liveSteps plot node)).flatMap (stepEmissions plot id (flowName plot id)) ++
      globals.flatMap fun (s, flow) =>
        if s.target = id then [] else stepEmissions plot id flow s)

/-- What a plot adds to the empty graph. -/
def emissions (plot : Plot) (mode : GlobalTransitions) : List Emission :=
  plot.nodes.entries.flatMap fun (id, node) =>
    if participates node then sourceEmissions plot (globals plot mode) id node else []

/-! ### The derivation draws the emissions -/

/-- Lists of emissions are drawn one after the other. -/
lemma draw_append (g : Graph) (first second : List Emission) :
    draw g (first ++ second) = draw (draw g first) second :=
  List.foldl_append

/-- A loop that draws something for each item draws everything that the items stand for. -/
lemma foldl_draw {β : Type} (f : Draft → β → Draft) (e : β → List Emission)
    (h : ∀ d b, (f d b).graph = draw d.graph (e b)) (items : List β) (d : Draft) :
    (items.foldl f d).graph = draw d.graph (items.flatMap e) := by
  induction items generalizing d with
  | nil => rfl
  | cons b rest ih => rw [List.foldl_cons, ih, h, List.flatMap_cons, draw_append]

/-- Adding a turn draws it. -/
lemma graph_addTurn (d : Draft) (t : Turn) :
    (d.addTurn t).graph = Emission.addTo d.graph (.turn t) := by
  by_cases h : d.graph.turns.any (·.id = t.id) = true
  · rw [Draft.addTurn, Emission.addTo, if_pos h, if_pos h]
  · rw [Draft.addTurn, Emission.addTo, if_neg h, if_neg h]

/-- Adding an edge draws it. -/
lemma graph_addEdge (d : Draft) (e : Edge) :
    (d.addEdge e).graph = Emission.addTo d.graph (.edge e) := by
  by_cases h : d.graph.edges.contains e = true
  · rw [Draft.addEdge, Emission.addTo, if_pos h, if_pos h]
  · rw [Draft.addEdge, Emission.addTo, if_neg h, if_neg h]

/-- Adding a step draws its edges and turns. -/
lemma graph_addStep (plot : Plot) (source flow : String) (s : Step) (d : Draft) :
    (d.addStep plot source flow s).graph = draw d.graph (stepEmissions plot source flow s) := by
  unfold Draft.addStep Draft.addNode
  rw [graph_addEdge, graph_addTurn, graph_addTurn, graph_addEdge]
  rfl

/-! ### The table of shown transitions

One table serves all nodes of a plot.  The names of the nodes are distinct, so when a node is added
the table holds none of its transitions yet.
-/

/-- For the transitions of a node, a table stands for a list of shown steps: it finds the same
transitions. -/
def Tells (table : List (Key × String)) (source : String) (shown : List Step) : Prop :=
  ∀ s : Step, table.lookup (s.key source) = (twin? shown s).map (·.transition)

/-- Adding a turn shows no transition. -/
lemma shown_addTurn (d : Draft) (t : Turn) : (d.addTurn t).shown = d.shown := by
  unfold Draft.addTurn
  split <;> rfl

/-- Adding an edge shows no transition. -/
lemma shown_addEdge (d : Draft) (e : Edge) : (d.addEdge e).shown = d.shown := by
  unfold Draft.addEdge
  split <;> rfl

/-- Adding a step leaves the table as it is. -/
lemma shown_addStep (plot : Plot) (source flow : String) (s : Step) (d : Draft) :
    (d.addStep plot source flow s).shown = d.shown := by
  unfold Draft.addStep Draft.addNode
  rw [shown_addEdge, shown_addTurn, shown_addTurn, shown_addEdge]

/-- What the table finds after a step was remembered. -/
lemma lookup_remember (source : String) (s : Step) (d : Draft) (key : Key) :
    (d.remember source s).shown.lookup key =
      if key = s.key source then some s.transition else d.shown.lookup key :=
  Table.lookup_put _ _ _ _

section Transition

variable {plot : Plot} {source t : String} {d : Draft} {shown : List Step} {s : Step}

/-- A step that is remembered is the last one of the shown steps. -/
lemma Tells.remember (h : Tells d.shown source shown) (htwin : twin? shown s = none) :
    Tells (d.remember source s).shown source (shown ++ [s]) := by
  intro s'
  have hkey : s'.key source = s.key source ↔ s.target = s'.target ∧ s.label = s'.label := by
    simp only [Step.key, Key.mk.injEq, true_and, eq_comm]
  have hlast : twin? (shown ++ [s]) s' =
      (twin? shown s').or (if s.target = s'.target ∧ s.label = s'.label then some s else none) := by
    unfold twin?
    rw [List.find?_append, List.find?_singleton]
    simp only [decide_eq_true_eq]
  rw [lookup_remember, hlast]
  by_cases hsame : s.target = s'.target ∧ s.label = s'.label
  · have hnone : twin? shown s' = none := by
      rw [← htwin]
      unfold twin?
      rw [hsame.1, hsame.2]
    rw [if_pos (hkey.mpr hsame), if_pos hsame, hnone]
    rfl
  · rw [if_neg (mt hkey.mp hsame), if_neg hsame, h s', Option.or_none]

/-- A transition that leads nowhere is only noted. -/
lemma addTransition_of_none (hfound : (step plot t).1 = none) :
    addTransition plot source d t = d.note (step plot t).2 := by
  simp only [addTransition, hfound]

/-- A transition with a twin collapses into it. -/
lemma addTransition_of_some (hfound : (step plot t).1 = some s) {other : String}
    (hshown : d.shown.lookup (s.key source) = some other) :
    addTransition plot source d t = (d.note (step plot t).2).note [.collapsed t other] := by
  have hnoted : (d.note (step plot t).2).shown.lookup (s.key source) = some other := hshown
  simp only [addTransition, hfound, hnoted]

/-- A transition without a twin is shown. -/
lemma addTransition_of_new (hfound : (step plot t).1 = some s)
    (hshown : d.shown.lookup (s.key source) = none) :
    addTransition plot source d t =
      ((d.note (step plot t).2).remember source s).addStep plot source (flowName plot source)
        s := by
  have hnoted : (d.note (step plot t).2).shown.lookup (s.key source) = none := hshown
  simp only [addTransition, hfound, hnoted]

/-- A transition of a node is not among those of another node. -/
lemma lookup_addTransition_ne (plot : Plot) (d : Draft) (t : String) {key : Key}
    (hne : key.source ≠ source) :
    (addTransition plot source d t).shown.lookup key = d.shown.lookup key := by
  cases hfound : (step plot t).1 with
  | none =>
    rw [addTransition_of_none hfound]
    rfl
  | some s =>
    cases hshown : d.shown.lookup (s.key source) with
    | some other =>
      rw [addTransition_of_some hfound hshown]
      rfl
    | none =>
      have hkey : key ≠ s.key source := by
        rintro rfl
        exact hne rfl
      rw [addTransition_of_new hfound hshown, shown_addStep, lookup_remember, if_neg hkey]
      rfl

/-- The table after a transition without a twin. -/
lemma Tells.addTransition_of_new (h : Tells d.shown source shown)
    (hfound : (step plot t).1 = some s) (htwin : twin? shown s = none) :
    Tells (addTransition plot source d t).shown source (shown ++ [s]) := by
  have hnoted : Tells (d.note (step plot t).2).shown source shown := h
  rw [Derivation.addTransition_of_new hfound ((h s).trans (congrArg _ htwin)), shown_addStep]
  exact hnoted.remember htwin

end Transition

/-- The transitions of a node draw the steps that are kept of them. -/
lemma graph_foldl_addTransition (plot : Plot) (source : String) (ts : List String) (d : Draft)
    (shown : List Step) (h : Tells d.shown source shown) :
    (ts.foldl (addTransition plot source) d).graph =
      draw d.graph ((collapse shown (ts.filterMap fun t => (step plot t).1)).flatMap
        (stepEmissions plot source (flowName plot source))) := by
  induction ts generalizing d shown with
  | nil => rfl
  | cons t rest ih =>
    rw [List.foldl_cons]
    cases hfound : (step plot t).1 with
    | none =>
      rw [addTransition_of_none hfound, ih (d.note _) shown h,
        List.filterMap_cons_none (f := fun t => (step plot t).1) hfound]
      rfl
    | some s =>
      rw [List.filterMap_cons_some (f := fun t => (step plot t).1) hfound]
      cases htwin : twin? shown s with
      | some other =>
        rw [addTransition_of_some hfound ((h s).trans (congrArg _ htwin)),
          ih ((d.note _).note _) shown h, collapse, htwin]
        rfl
      | none =>
        rw [ih _ _ (h.addTransition_of_new hfound htwin),
          addTransition_of_new hfound ((h s).trans (congrArg _ htwin)), graph_addStep, collapse,
          htwin, List.flatMap_cons, draw_append]
        rfl

/-- A loop that appends something for each item appends everything that the items stand for. -/
lemma fst_foldl_append {β γ ε : Type} {f : List γ × ε → β → List γ × ε} (e : β → List γ)
    (h : ∀ acc b, (f acc b).1 = acc.1 ++ e b) (items : List β) (acc : List γ × ε) :
    (items.foldl f acc).1 = acc.1 ++ items.flatMap e := by
  induction items generalizing acc with
  | nil => rw [List.foldl_nil, List.flatMap_nil, List.append_nil]
  | cons b rest ih => rw [List.foldl_cons, ih, h, List.flatMap_cons, List.append_assoc]

/-- The steps of global nodes are collected in order. -/
lemma globalSteps_eq (plot : Plot) : (globalSteps plot).1 = globals plot .fanOut := by
  refine fst_foldl_append _ (fun acc entry => ?_) plot.nodes.entries ([], [])
  obtain ⟨id, node⟩ := entry
  by_cases hrole : node.role = .global
  · simp only [hrole, if_true]
    rw [liveSteps, List.filterMap_eq_flatMap_toList, List.map_flatMap]
    exact fst_foldl_append _ (fun _ _ => rfl) node.transitions acc
  · simp only [hrole, if_false, List.append_nil]

/-- A participating node of which no transition is shown draws its emissions. -/
lemma graph_addSource (plot : Plot) (globals : List (Step × String)) {d : Draft} {id : String}
    (node : Node) (h : Tells d.shown id []) :
    (addSource plot globals d id node).graph =
      draw d.graph (sourceEmissions plot globals id node) := by
  have hglobals := foldl_draw
    (fun d (s, flow) => if s.target = id then d else d.addStep plot id flow s)
    (fun (s, flow) => if s.target = id then [] else stepEmissions plot id flow s) (by
      intro d b
      by_cases hid : b.1.target = id
      · simp only [hid, if_true]
        rfl
      · simp only [hid, if_false]
        exact graph_addStep plot id b.2 b.1 d) globals
  have htells : Tells (d.addNode plot id node).shown id [] := by
    unfold Draft.addNode
    rw [shown_addTurn]
    exact h
  unfold addSource
  rw [hglobals, graph_foldl_addTransition _ _ _ _ _ htells]
  unfold Draft.addNode
  rw [graph_addTurn, ← draw_append]
  rfl

/-- The transitions of other nodes stay as they are when a node is added. -/
lemma Tells.addEntry_ne {plot : Plot} {globals : List (Step × String)} {d : Draft}
    {entry : String × Node} {other : String} (hne : other ≠ entry.1)
    (h : Tells d.shown other []) : Tells (addEntry plot globals d entry).shown other [] := by
  intro s
  rw [← h s]
  have hglobals : ∀ (steps : List (Step × String)) (d : Draft),
      (steps.foldl (fun d (s, flow) =>
        if s.target = entry.1 then d else d.addStep plot entry.1 flow s) d).shown = d.shown := by
    intro steps
    induction steps with
    | nil => exact fun _ => rfl
    | cons step rest ih =>
      intro d
      rw [List.foldl_cons, ih]
      by_cases hid : step.1.target = entry.1
      · simp only [hid, if_true]
      · simp only [hid, if_false]
        exact shown_addStep _ _ _ _ _
  have hown : ∀ (ts : List String) (d : Draft),
      (ts.foldl (addTransition plot entry.1) d).shown.lookup (s.key other) =
        d.shown.lookup (s.key other) := by
    intro ts
    induction ts with
    | nil => exact fun _ => rfl
    | cons t rest ih =>
      intro d
      rw [List.foldl_cons, ih, lookup_addTransition_ne plot d t hne]
  unfold addEntry
  split
  · unfold addSource
    rw [hglobals, hown]
    unfold Draft.addNode
    rw [shown_addTurn]
  · rfl

/-- What is seen of a draft while the nodes are added, one after the other: for each node it may be
supposed that none of its transitions is shown yet. -/
lemma foldl_addEntry {γ : Type} (plot : Plot) (globals : List (Step × String)) (view : Draft → γ)
    (next : γ → String × Node → γ)
    (hnext : ∀ d entry, Tells d.shown entry.1 [] →
      view (addEntry plot globals d entry) = next (view d) entry)
    {entries : List (String × Node)} (hnodup : (entries.map Prod.fst).Nodup) (d : Draft)
    (hnew : ∀ entry ∈ entries, Tells d.shown entry.1 []) :
    view (entries.foldl (addEntry plot globals) d) = entries.foldl next (view d) := by
  induction entries generalizing d with
  | nil => rfl
  | cons entry rest ih =>
    rw [List.map_cons, List.nodup_cons] at hnodup
    have hrest : ∀ later ∈ rest, Tells (addEntry plot globals d entry).shown later.1 [] := by
      intro later hlater
      have hne : later.1 ≠ entry.1 := fun h => hnodup.1 (h ▸ List.mem_map_of_mem hlater)
      exact (hnew later (List.mem_cons_of_mem entry hlater)).addEntry_ne hne
    rw [List.foldl_cons, List.foldl_cons, ih hnodup.2 _ hrest,
      hnext d entry (hnew entry List.mem_cons_self)]

/-- The display graph of a plot is drawn from its emissions. -/
theorem toGraph_eq_draw (plot : Plot) (mode : GlobalTransitions) :
    plot.toGraph mode = draw {} (emissions plot mode) := by
  have hloop : ∀ (steps : List (Step × String)) (events : List Event),
      (plot.nodes.entries.foldl (addEntry plot steps) (({} : Draft).note events)).graph =
      draw {} (plot.nodes.entries.flatMap fun (id, node) =>
        if participates node then sourceEmissions plot steps id node else []) := by
    intro steps events
    have hfold := foldl_addEntry plot steps Draft.graph
      (fun g entry => draw g
        (if participates entry.2 then sourceEmissions plot steps entry.1 entry.2 else [])) (by
      intro d entry h
      unfold addEntry
      split
      · exact graph_addSource plot steps entry.2 h
      · rfl) plot.nodes.nodup (({} : Draft).note events) fun _ _ _ => rfl
    exact hfold.trans List.foldl_flatMap.symm
  unfold Plot.toGraph run emissions
  match mode with
  | .omit => exact hloop [] _
  | .fanOut =>
    rw [← globalSteps_eq]
    exact hloop (globalSteps plot).1 _

/-! ### What a drawing holds -/

/-- The turn that is added, if it is one. -/
def Emission.turn? : Emission → Option Turn
  | .turn t => some t
  | .edge _ => none

/-- The edge that is added, if it is one. -/
def Emission.edge? : Emission → Option Edge
  | .turn _ => none
  | .edge e => some e

/-- The turns of some emissions are those that were emitted. -/
lemma mem_filterMap_turn? {items : List Emission} {t : Turn} :
    t ∈ items.filterMap Emission.turn? ↔ .turn t ∈ items := by
  rw [List.mem_filterMap]
  constructor
  · rintro ⟨item, hitem, h⟩
    cases item with
    | turn t' =>
      cases h
      exact hitem
    | edge e => cases h
  · intro h
    exact ⟨.turn t, h, rfl⟩

/-- The edges of some emissions are those that were emitted. -/
lemma mem_filterMap_edge? {items : List Emission} {e : Edge} :
    e ∈ items.filterMap Emission.edge? ↔ .edge e ∈ items := by
  rw [List.mem_filterMap]
  constructor
  · rintro ⟨item, hitem, h⟩
    cases item with
    | turn t => cases h
    | edge e' =>
      cases h
      exact hitem
  · intro h
    exact ⟨.edge e, h, rfl⟩

/-- A drawing holds the first of the turns under each id, and the first occurrence of each edge,
in the order in which they were emitted. -/
theorem draw_eq_firsts (items : List Emission) :
    draw {} items =
      { turns := firstsBy (·.id) (items.filterMap Emission.turn?)
        edges := firstsBy id (items.filterMap Emission.edge?) } := by
  induction items using List.reverseRecOn with
  | nil => rfl
  | append_singleton items item ih =>
    have hlast : draw {} (items ++ [item]) = item.addTo (draw {} items) := draw_append _ _ _
    rw [hlast, ih, List.filterMap_append, List.filterMap_append]
    cases item with
    | turn t =>
      have hturn : [Emission.turn t].filterMap Emission.turn? = [t] := rfl
      have hedge : [Emission.turn t].filterMap Emission.edge? = [] := rfl
      have htaken : (firstsBy (·.id) (items.filterMap Emission.turn?)).any (·.id = t.id) = true ↔
          t.id ∈ (items.filterMap Emission.turn?).map (·.id) := by
        rw [← mem_keys_firstsBy, List.any_eq_true, List.mem_map]
        simp only [decide_eq_true_eq]
      rw [hturn, hedge, List.append_nil, firstsBy_concat]
      by_cases h : t.id ∈ (items.filterMap Emission.turn?).map (·.id)
      · rw [Emission.addTo, if_pos (htaken.mpr h), if_pos h]
      · rw [Emission.addTo, if_neg (mt htaken.mp h), if_neg h]
    | edge e =>
      have hturn : [Emission.edge e].filterMap Emission.turn? = [] := rfl
      have hedge : [Emission.edge e].filterMap Emission.edge? = [e] := rfl
      have hthere : (firstsBy id (items.filterMap Emission.edge?)).contains e = true ↔
          id e ∈ (items.filterMap Emission.edge?).map id := by
        rw [← mem_keys_firstsBy, List.map_id, List.contains_iff_mem, id]
      rw [hturn, hedge, List.append_nil, firstsBy_concat]
      by_cases h : id e ∈ (items.filterMap Emission.edge?).map id
      · rw [Emission.addTo, if_pos (hthere.mpr h), if_pos h]
      · rw [Emission.addTo, if_neg (mt hthere.mp h), if_neg h]

/-- The edges of a drawing are those that were emitted. -/
lemma mem_edges_draw {items : List Emission} {e : Edge} :
    e ∈ (draw {} items).edges ↔ .edge e ∈ items := by
  rw [draw_eq_firsts, ← mem_filterMap_edge?]
  simpa only [List.map_id] using mem_keys_firstsBy id (items.filterMap Emission.edge?) e

/-- The turns of a drawing were emitted. -/
lemma mem_turns_draw {items : List Emission} {t : Turn} (h : t ∈ (draw {} items).turns) :
    .turn t ∈ items := by
  rw [draw_eq_firsts] at h
  exact mem_filterMap_turn?.mp ((firstsBy_sublist _ _).subset h)

/-- The id of every turn that was emitted is in the drawing. -/
lemma exists_id_draw {items : List Emission} {t : Turn} (h : .turn t ∈ items) :
    ∃ t' ∈ (draw {} items).turns, t'.id = t.id := by
  rw [draw_eq_firsts, ← List.mem_map, mem_keys_firstsBy]
  exact List.mem_map_of_mem (mem_filterMap_turn?.mpr h)

/-! ### What a plot emits -/

/-- A step is shown from a participating node: as one of its own, or as a global one. -/
def Shows (plot : Plot) (mode : GlobalTransitions) (source : String) (s : Step) (flow : String) :
    Prop :=
  ∃ node, (source, node) ∈ plot.nodes.entries ∧ participates node = true ∧
    ((s ∈ collapse [] (liveSteps plot node) ∧ flow = flowName plot source) ∨
      ((s, flow) ∈ globals plot mode ∧ s.target ≠ source))

/-- A plot emits the turns of its participating nodes and the steps that are shown. -/
lemma mem_emissions {plot : Plot} {mode : GlobalTransitions} {item : Emission} :
    item ∈ emissions plot mode ↔
      (∃ id node, (id, node) ∈ plot.nodes.entries ∧ participates node = true ∧
        item = .turn (nodeTurn plot id node)) ∨
      ∃ source s flow, Shows plot mode source s flow ∧
        item ∈ stepEmissions plot source flow s := by
  constructor
  · intro h
    obtain ⟨⟨id, node⟩, hentry, h⟩ := List.mem_flatMap.mp h
    by_cases hpart : participates node = true
    · simp only [hpart, if_true] at h
      rcases List.mem_cons.mp h with rfl | h
      · exact .inl ⟨id, node, hentry, hpart, rfl⟩
      · refine .inr ?_
        rcases List.mem_append.mp h with h | h
        · obtain ⟨s, hs, hitem⟩ := List.mem_flatMap.mp h
          exact ⟨id, s, flowName plot id, ⟨node, hentry, hpart, .inl ⟨hs, rfl⟩⟩, hitem⟩
        · obtain ⟨⟨s, flow⟩, hs, hitem⟩ := List.mem_flatMap.mp h
          by_cases htarget : s.target = id
          · simp [htarget] at hitem
          · simp only [htarget, if_false] at hitem
            exact ⟨id, s, flow, ⟨node, hentry, hpart, .inr ⟨hs, htarget⟩⟩, hitem⟩
    · simp [hpart] at h
  · intro h
    unfold emissions
    rw [List.mem_flatMap]
    rcases h with ⟨id, node, hentry, hpart, rfl⟩ | ⟨id, s, flow, hshows, hitem⟩
    · refine ⟨(id, node), hentry, ?_⟩
      simp only [hpart, if_true]
      exact List.mem_cons_self
    · obtain ⟨node, hentry, hpart, hs⟩ := hshows
      refine ⟨(id, node), hentry, ?_⟩
      simp only [hpart, if_true]
      refine List.mem_cons_of_mem _ (List.mem_append.mpr ?_)
      rcases hs with ⟨hs, rfl⟩ | ⟨hs, htarget⟩
      · exact .inl (List.mem_flatMap.mpr ⟨s, hs, hitem⟩)
      · refine .inr (List.mem_flatMap.mpr ⟨(s, flow), hs, ?_⟩)
        simp only [htarget, if_false]
        exact hitem

/-! ### Collapsing -/

/-- Two steps that look the same from their node. -/
def Twins (s s' : Step) : Prop :=
  s.target = s'.target ∧ s.label = s'.label

/-- A step has a twin among others exactly if one of them looks the same. -/
lemma twin?_eq_none_iff {shown : List Step} {s : Step} :
    twin? shown s = none ↔ ∀ other ∈ shown, ¬ Twins other s := by
  unfold twin? Twins
  rw [List.find?_eq_none]
  simp

/-- Collapsing adds no steps. -/
lemma mem_of_mem_collapse {shown steps : List Step} {s : Step} (h : s ∈ collapse shown steps) :
    s ∈ steps := by
  induction steps generalizing shown with
  | nil => cases h
  | cons first rest ih =>
    rw [collapse] at h
    split at h
    · exact List.mem_cons_of_mem _ (ih h)
    · rcases List.mem_cons.mp h with rfl | h
      · exact List.mem_cons_self
      · exact List.mem_cons_of_mem _ (ih h)

/-- Every step has a twin among those that are kept. -/
lemma exists_twin_collapse (shown : List Step) {steps : List Step} {s : Step} (h : s ∈ steps) :
    (∃ other ∈ shown, Twins other s) ∨ ∃ other ∈ collapse shown steps, Twins other s := by
  induction steps generalizing shown with
  | nil => cases h
  | cons first rest ih =>
    rw [collapse]
    cases htwin : twin? shown first with
    | some other =>
      rcases List.mem_cons.mp h with rfl | h
      · have hnot := mt twin?_eq_none_iff.mpr (htwin ▸ Option.some_ne_none other)
        push Not at hnot
        exact .inl hnot
      · exact ih shown h
    | none =>
      rcases List.mem_cons.mp h with rfl | h
      · exact .inr ⟨s, List.mem_cons_self, rfl, rfl⟩
      · rcases ih (shown ++ [first]) h with ⟨other, hother, htw⟩ | ⟨other, hother, htw⟩
        · rcases List.mem_append.mp hother with hother | hother
          · exact .inl ⟨other, hother, htw⟩
          · rw [List.mem_singleton] at hother
            subst hother
            exact .inr ⟨other, List.mem_cons_self, htw⟩
        · exact .inr ⟨other, List.mem_cons_of_mem _ hother, htw⟩

/-- A step that is kept has no twin among those that were kept before it. -/
lemma not_twins_of_mem_collapse {shown steps : List Step} {s other : Step}
    (h : s ∈ collapse shown steps) (hother : other ∈ shown) : ¬ Twins other s := by
  induction steps generalizing shown with
  | nil => cases h
  | cons first rest ih =>
    rw [collapse] at h
    split at h
    · exact ih h hother
    · rename_i hnone
      rcases List.mem_cons.mp h with rfl | h
      · exact twin?_eq_none_iff.mp hnone other hother
      · exact ih h (List.mem_append_left _ hother)

/-- No two of the steps that are kept are twins. -/
lemma eq_of_twins_collapse {shown steps : List Step} {s s' : Step}
    (h : s ∈ collapse shown steps) (h' : s' ∈ collapse shown steps) (htwins : Twins s s') :
    s = s' := by
  induction steps generalizing shown with
  | nil => cases h
  | cons first rest ih =>
    rw [collapse] at h h'
    split at h
    · rename_i hsome
      simp only [hsome] at h'
      exact ih h h'
    · rename_i hnone
      simp only [hnone] at h'
      rcases List.mem_cons.mp h with rfl | h
      · rcases List.mem_cons.mp h' with rfl | h'
        · rfl
        · exact absurd htwins (not_twins_of_mem_collapse h' (by simp))
      · rcases List.mem_cons.mp h' with rfl | h'
        · exact absurd ⟨htwins.1.symm, htwins.2.symm⟩ (not_twins_of_mem_collapse h (by simp))
        · exact ih h h'

end Derivation

end DialogChart
