import DialogChart.Proofs.Graph.Emission
import DialogChart.Proofs.Table
import Mathlib.Data.Set.Basic

/-!
# The display graph means the dialog of the plot

A step of a dialog leads from a node, under a condition label, to a node.  In a plot the steps are
the transitions that lead to a known node, listed by the participating nodes and, with fan-out, by
the global ones.  In a display graph they are the paths from a turn of the bot over a turn of the
user to a turn of the bot.  If no id names both a node and a transition, the two agree
(`dialog_preserved`): collapsing transitions loses no step, sharing them between nodes invents
none, and without fan-out every step is shown by exactly one turn of the user.
-/

namespace DialogChart

namespace Plot

/-! ### The steps of a plot -/

/-- A transition leads to a known node under a label. -/
def Live (plot : Plot) (t label target : String) : Prop :=
  ∃ transition, plot.transitions.get? t = some transition ∧
    transition.label.node? = some target ∧ (plot.nodes.get? target).isSome = true ∧
    plot.conditionLabel transition.condition = label

/-- A regular node with transitions. -/
def Participating (plot : Plot) (n : String) (node : Node) : Prop :=
  plot.nodes.get? n = some node ∧ node.role = .regular ∧ node.transitions ≠ []

/-- The steps, as triples of source, label and target, that the participating nodes list. -/
def ownSteps (plot : Plot) : Set (String × String × String) :=
  { (n, l, m) | ∃ node t, plot.Participating n node ∧ t ∈ node.transitions ∧ plot.Live t l m }

/-- The steps that global nodes list, from every participating node other than the target. -/
def globalSteps (plot : Plot) : Set (String × String × String) :=
  { (n, l, m) | (∃ node, plot.Participating n node) ∧
    (∃ owner node t, plot.nodes.get? owner = some node ∧ node.role = .global ∧
      t ∈ node.transitions ∧ plot.Live t l m) ∧ m ≠ n }

/-- No id names both a node and a transition. -/
def KeysApart (plot : Plot) : Prop :=
  ∀ id ∈ plot.nodes.names, id ∉ plot.transitions.names

/-- A transition leads to one node, under one label. -/
lemma Live.unique {plot : Plot} {t l l' m m' : String} (h : plot.Live t l m)
    (h' : plot.Live t l' m') : l = l' ∧ m = m' := by
  obtain ⟨transition, ht, hm, -, rfl⟩ := h
  obtain ⟨transition', ht', hm', -, rfl⟩ := h'
  obtain rfl : transition = transition' := Option.some.inj (ht.symm.trans ht')
  exact ⟨rfl, Option.some.inj (hm.symm.trans hm')⟩

/-- A transition that leads somewhere has a record. -/
lemma Live.mem_names {plot : Plot} {t l m : String} (h : plot.Live t l m) :
    t ∈ plot.transitions.names := by
  obtain ⟨transition, ht, -⟩ := h
  exact Table.mem_names_of_get? ht

end Plot

namespace Graph

/-! ### The steps of a graph -/

/-- A turn of a speaker has an id. -/
def Has (g : Graph) (speaker : Speaker) (id : String) : Prop :=
  ∃ t ∈ g.turns, t.id = id ∧ t.speaker = speaker

/-- A turn `u` of the user, labelled `l`, stands between turns `n` and `m` of the bot. -/
structure Says (g : Graph) (n l m u : String) : Prop where
  enter : g.hasEdge n u = true
  leave : g.hasEdge u m = true
  source : g.Has .bot n
  target : g.Has .bot m
  label : ∃ t ∈ g.turns, t.id = u ∧ t.speaker = .user ∧ t.label = l

/-- The steps of a graph, as triples of source, label and target. -/
def steps (g : Graph) : Set (String × String × String) :=
  { (n, l, m) | ∃ u, g.Says n l m u }

end Graph

namespace Derivation

variable {plot : Plot} {mode : GlobalTransitions}

/-! ### Steps that are shown lead somewhere -/

/-- The step that is found for a transition. -/
lemma live_of_step {t : String} {s : Step} (h : (step plot t).1 = some s) :
    s.transition = t ∧ plot.Live t s.label s.target ∧
      plot.nodes.get? s.target = some s.node := by
  unfold step at h
  cases ht : plot.transitions.get? t with
  | none =>
    rw [ht] at h
    cases h
  | some transition =>
    simp only [ht] at h
    cases hm : transition.label.node? with
    | none =>
      rw [hm] at h
      cases h
    | some m =>
      cases hn : plot.nodes.get? m with
      | none =>
        simp only [hm, hn, Option.bind_some, Option.map_none] at h
        cases h
      | some node =>
        simp only [hm, hn, Option.bind_some, Option.map_some] at h
        cases hl : plot.definitionName transition.condition with
        | ok label =>
          simp only [hl, Option.some.injEq] at h
          subst h
          refine ⟨rfl, ⟨transition, ht, hm, by rw [hn]; rfl, ?_⟩, hn⟩
          simp only [Plot.conditionLabel, hl]
        | error reason =>
          simp only [hl, Option.some.injEq] at h
          subst h
          refine ⟨rfl, ⟨transition, ht, hm, by rw [hn]; rfl, ?_⟩, hn⟩
          simp only [Plot.conditionLabel, hl]

/-- A transition that leads to a known node has a step. -/
lemma step_of_live {t l m : String} (h : plot.Live t l m) :
    ∃ s, (step plot t).1 = some s ∧ s.label = l ∧ s.target = m := by
  have hfound : ∃ s, (step plot t).1 = some s := by
    obtain ⟨transition, ht, hm, hn, -⟩ := h
    obtain ⟨node, hn⟩ := Option.isSome_iff_exists.mp hn
    unfold step
    simp only [ht, hm, hn, Option.bind_some, Option.map_some]
    cases plot.definitionName transition.condition with
    | ok label => exact ⟨_, rfl⟩
    | error reason => exact ⟨_, rfl⟩
  obtain ⟨s, hs⟩ := hfound
  obtain ⟨-, hlive, -⟩ := live_of_step hs
  exact ⟨s, hs, hlive.unique h⟩

/-- The steps of a node are those of its live transitions. -/
lemma mem_liveSteps {node : Node} {s : Step} (h : s ∈ liveSteps plot node) :
    s.transition ∈ node.transitions ∧ plot.Live s.transition s.label s.target ∧
      plot.nodes.get? s.target = some s.node := by
  obtain ⟨t, ht, hs⟩ := List.mem_filterMap.mp h
  obtain ⟨rfl, hlive, hnode⟩ := live_of_step hs
  exact ⟨ht, hlive, hnode⟩

/-- Every live transition of a node is one of its steps. -/
lemma exists_mem_liveSteps {node : Node} {t l m : String} (ht : t ∈ node.transitions)
    (h : plot.Live t l m) : ∃ s ∈ liveSteps plot node, s.label = l ∧ s.target = m := by
  obtain ⟨s, hs, hlabel, htarget⟩ := step_of_live h
  exact ⟨s, List.mem_filterMap.mpr ⟨t, ht, hs⟩, hlabel, htarget⟩

/-- The global steps are those of the live transitions of global nodes. -/
lemma mem_globals {s : Step} {flow : String} (h : (s, flow) ∈ globals plot mode) :
    mode = .fanOut ∧ ∃ owner node, plot.nodes.get? owner = some node ∧ node.role = .global ∧
      s ∈ liveSteps plot node := by
  match mode with
  | .omit => cases h
  | .fanOut =>
    obtain ⟨⟨owner, node⟩, hentry, h⟩ := List.mem_flatMap.mp h
    by_cases hrole : node.role = .global
    · simp only [hrole, if_true, List.mem_map, Prod.mk.injEq] at h
      obtain ⟨s', hs, rfl, -⟩ := h
      exact ⟨rfl, owner, node, Table.get?_eq_some_iff.mpr hentry, hrole, hs⟩
    · simp [hrole] at h

/-- Every step of a global node is a global step. -/
lemma exists_mem_globals {owner : String} {node : Node} {s : Step}
    (hnode : plot.nodes.get? owner = some node) (hrole : node.role = .global)
    (h : s ∈ liveSteps plot node) : ∃ flow, (s, flow) ∈ globals plot .fanOut := by
  refine ⟨flowName plot owner, List.mem_flatMap.mpr ⟨(owner, node), ?_, ?_⟩⟩
  · exact Table.get?_eq_some_iff.mp hnode
  · simp only [hrole, if_true]
    exact List.mem_map_of_mem h

/-- A step that is shown leads to a known node. -/
lemma Shows.live {n flow : String} {s : Step} (h : Shows plot mode n s flow) :
    plot.Live s.transition s.label s.target ∧ plot.nodes.get? s.target = some s.node := by
  obtain ⟨node, -, -, ⟨hs, -⟩ | ⟨hs, -⟩⟩ := h
  · exact (mem_liveSteps (mem_of_mem_collapse hs)).2
  · obtain ⟨-, _, _, -, -, hs⟩ := mem_globals hs
    exact (mem_liveSteps hs).2

/-- A node participates in the derivation if it is a regular node with transitions. -/
lemma participates_iff {node : Node} :
    participates node = true ↔ node.role = .regular ∧ node.transitions ≠ [] := by
  simp [participates]

/-- A step is shown from participating nodes only. -/
lemma Shows.participating {n flow : String} {s : Step} (h : Shows plot mode n s flow) :
    ∃ node, plot.Participating n node := by
  obtain ⟨node, hentry, hpart, -⟩ := h
  exact ⟨node, Table.get?_eq_some_iff.mpr hentry, participates_iff.mp hpart⟩

/-! ### The turns and edges of the display graph -/

/-- The edges of the display graph lead to and from the transitions that are shown. -/
lemma hasEdge_toGraph {a b : String} :
    (plot.toGraph mode).hasEdge a b = true ↔
      ∃ n s flow, Shows plot mode n s flow ∧
        ((a = n ∧ b = s.transition) ∨ (a = s.transition ∧ b = s.target)) := by
  unfold Graph.hasEdge
  rw [List.contains_iff_mem, toGraph_eq_draw, mem_edges_draw, mem_emissions]
  constructor
  · rintro (⟨_, _, -, -, h⟩ | ⟨n, s, flow, hshows, h⟩)
    · cases h
    · refine ⟨n, s, flow, hshows, ?_⟩
      simpa [stepEmissions] using h
  · rintro ⟨n, s, flow, hshows, h⟩
    refine .inr ⟨n, s, flow, hshows, ?_⟩
    simpa [stepEmissions] using h

/-- Where a turn of the display graph comes from: it shows a participating node, or the target of a
step that is shown, or such a step. -/
lemma turn_cases {t : Turn} (h : t ∈ (plot.toGraph mode).turns) :
    (∃ id node, (id, node) ∈ plot.nodes.entries ∧ participates node = true ∧
      t = nodeTurn plot id node) ∨
    ∃ n s flow, Shows plot mode n s flow ∧
      (t = nodeTurn plot s.target s.node ∨ t = ⟨s.transition, s.label, .user, flow⟩) := by
  rw [toGraph_eq_draw] at h
  rcases mem_emissions.mp (mem_turns_draw h) with
    ⟨id, node, hentry, hpart, heq⟩ | ⟨n, s, flow, hshows, hitem⟩
  · cases heq
    exact .inl ⟨id, node, hentry, hpart, rfl⟩
  · refine .inr ⟨n, s, flow, hshows, ?_⟩
    simp only [stepEmissions, List.mem_cons, List.not_mem_nil, or_false, reduceCtorEq,
      false_or, Emission.turn.injEq] at hitem
    exact hitem.symm

/-- A turn of the display graph is one of the bot, with the id of a node, or one of the user, with
the id and the label of a transition. -/
lemma turn_toGraph {t : Turn} (h : t ∈ (plot.toGraph mode).turns) :
    (t.speaker = .bot ∧ t.id ∈ plot.nodes.names) ∨
      (t.speaker = .user ∧ ∃ m, plot.Live t.id t.label m) := by
  rcases turn_cases h with ⟨id, node, hentry, -, rfl⟩ | ⟨n, s, flow, hshows, rfl | rfl⟩
  · exact .inl ⟨rfl, List.mem_map.mpr ⟨(id, node), hentry, rfl⟩⟩
  · exact .inl ⟨rfl, Table.mem_names_of_get? hshows.live.2⟩
  · exact .inr ⟨rfl, s.target, hshows.live.1⟩

/-- A turn with the id of a node is one of the bot. -/
lemma speaker_of_node (hkeys : plot.KeysApart) {t : Turn} (h : t ∈ (plot.toGraph mode).turns)
    (hid : t.id ∈ plot.nodes.names) : t.speaker = .bot := by
  rcases turn_toGraph h with ⟨hbot, -⟩ | ⟨-, m, hlive⟩
  · exact hbot
  · exact absurd hlive.mem_names (hkeys _ hid)

/-- A turn with the id of a transition is one of the user, with the label of the transition. -/
lemma speaker_of_transition (hkeys : plot.KeysApart) {t : Turn}
    (h : t ∈ (plot.toGraph mode).turns) {l m : String} (hlive : plot.Live t.id l m) :
    t.speaker = .user ∧ t.label = l := by
  rcases turn_toGraph h with ⟨-, hid⟩ | ⟨huser, m', hlive'⟩
  · exact absurd hlive.mem_names (hkeys _ hid)
  · exact ⟨huser, (hlive'.unique hlive).1⟩

/-- The ids of everything that is emitted are in the display graph. -/
lemma exists_turn_toGraph {t : Turn} (h : .turn t ∈ emissions plot mode) :
    ∃ t' ∈ (plot.toGraph mode).turns, t'.id = t.id := by
  rw [toGraph_eq_draw]
  exact exists_id_draw h

/-! ### Paths and steps -/

/-- A step that is shown is a path over a turn of the user. -/
lemma Shows.says (hkeys : plot.KeysApart) {n flow : String} {s : Step}
    (h : Shows plot mode n s flow) :
    (plot.toGraph mode).Says n s.label s.target s.transition := by
  obtain ⟨hlive, hnode⟩ := h.live
  have hemit : ∀ item ∈ stepEmissions plot n flow s, item ∈ emissions plot mode :=
    fun item hitem => mem_emissions.mpr (.inr ⟨n, s, flow, h, hitem⟩)
  refine ⟨?_, ?_, ?_, ?_, ?_⟩
  · exact hasEdge_toGraph.mpr ⟨n, s, flow, h, .inl ⟨rfl, rfl⟩⟩
  · exact hasEdge_toGraph.mpr ⟨n, s, flow, h, .inr ⟨rfl, rfl⟩⟩
  · obtain ⟨node, hentry, hpart, -⟩ := h
    have hturn : .turn (nodeTurn plot n node) ∈ emissions plot mode :=
      mem_emissions.mpr (.inl ⟨n, node, hentry, hpart, rfl⟩)
    obtain ⟨t, ht, hid⟩ := exists_turn_toGraph hturn
    have hname : t.id ∈ plot.nodes.names := by
      rw [hid]
      exact List.mem_map.mpr ⟨(n, node), hentry, rfl⟩
    exact ⟨t, ht, hid, speaker_of_node hkeys ht hname⟩
  · obtain ⟨t, ht, hid⟩ := exists_turn_toGraph
      (hemit (.turn (nodeTurn plot s.target s.node)) (by simp [stepEmissions]))
    have hname : t.id ∈ plot.nodes.names := by
      rw [hid]
      exact Table.mem_names_of_get? hnode
    exact ⟨t, ht, hid, speaker_of_node hkeys ht hname⟩
  · obtain ⟨t, ht, hid⟩ := exists_turn_toGraph
      (hemit (.turn ⟨s.transition, s.label, .user, flow⟩) (by simp [stepEmissions]))
    have hlive' : plot.Live t.id s.label s.target := by
      rw [hid]
      exact hlive
    obtain ⟨huser, hlabel⟩ := speaker_of_transition hkeys ht hlive'
    exact ⟨t, ht, hid, huser, hlabel⟩

/-- A path over a turn of the user is a step that is shown. -/
lemma shows_of_says (hkeys : plot.KeysApart) {n l m u : String}
    (h : (plot.toGraph mode).Says n l m u) :
    ∃ s flow, Shows plot mode n s flow ∧ s.transition = u ∧ s.label = l ∧ s.target = m := by
  obtain ⟨t, ht, rfl, huser, rfl⟩ := h.label
  obtain ⟨m', hlive⟩ : ∃ m', plot.Live t.id t.label m' := by
    rcases turn_toGraph ht with ⟨hbot, -⟩ | ⟨-, hlive⟩
    · rw [huser] at hbot
      cases hbot
    · exact hlive
  -- The turn of the user is a transition, so it is neither a source nor a target.
  have hnode : t.id ∉ plot.nodes.names := fun hid => hkeys _ hid hlive.mem_names
  obtain ⟨a, s, flow, hshows, ⟨rfl, hu⟩ | ⟨-, hu⟩⟩ := hasEdge_toGraph.mp h.enter
  · obtain ⟨b, s', flow', hshows', ⟨hu', -⟩ | ⟨hu', rfl⟩⟩ := hasEdge_toGraph.mp h.leave
    · obtain ⟨node, hpart⟩ := hshows'.participating
      exact absurd (hu' ▸ Table.mem_names_of_get? hpart.1) hnode
    · have hs := hshows.live.1
      have hs' := hshows'.live.1
      rw [← hu] at hs
      rw [← hu'] at hs'
      exact ⟨s, flow, hshows, hu.symm, (hs.unique hlive).1, (hs.unique hs').2⟩
  · exact absurd (hu ▸ Table.mem_names_of_get? hshows.live.2) hnode

/-- The steps that are shown of a participating node are its own and the global ones. -/
lemma exists_shows_iff {n l m : String} :
    (∃ s flow, Shows plot mode n s flow ∧ s.label = l ∧ s.target = m) ↔
      (n, l, m) ∈ plot.ownSteps ∨ (mode = .fanOut ∧ (n, l, m) ∈ plot.globalSteps) := by
  constructor
  · rintro ⟨s, flow, hshows, rfl, rfl⟩
    obtain ⟨node, hpart⟩ := hshows.participating
    obtain ⟨node', hentry, -, ⟨hs, -⟩ | ⟨hs, hne⟩⟩ := hshows
    · obtain rfl : node = node' :=
        Option.some.inj (hpart.1.symm.trans (Table.get?_eq_some_iff.mpr hentry))
      obtain ⟨ht, hlive, -⟩ := mem_liveSteps (mem_of_mem_collapse hs)
      exact .inl ⟨node, s.transition, hpart, ht, hlive⟩
    · obtain ⟨hmode, owner, other, hother, hrole, hs⟩ := mem_globals hs
      obtain ⟨ht, hlive, -⟩ := mem_liveSteps hs
      exact .inr ⟨hmode, ⟨node, hpart⟩, ⟨owner, other, s.transition, hother, hrole, ht, hlive⟩,
        hne⟩
  · rintro (⟨node, t, hpart, ht, hlive⟩ | ⟨rfl, ⟨node, hpart⟩, hglobal, hne⟩)
    · obtain ⟨s, hs, rfl, rfl⟩ := exists_mem_liveSteps ht hlive
      rcases exists_twin_collapse [] hs with ⟨_, h, -⟩ | ⟨s', hs', htarget, hlabel⟩
      · cases h
      · exact ⟨s', flowName plot n, ⟨node, Table.get?_eq_some_iff.mp hpart.1,
          participates_iff.mpr hpart.2, .inl ⟨hs', rfl⟩⟩, hlabel, htarget⟩
    · obtain ⟨owner, other, t, hother, hrole, ht, hlive⟩ := hglobal
      obtain ⟨s, hs, rfl, rfl⟩ := exists_mem_liveSteps ht hlive
      obtain ⟨flow, hs⟩ := exists_mem_globals hother hrole hs
      exact ⟨s, flow, ⟨node, Table.get?_eq_some_iff.mp hpart.1, participates_iff.mpr hpart.2,
        .inr ⟨hs, hne⟩⟩, rfl, rfl⟩

/-- The steps of the display graph are those of the plot. -/
lemma mem_steps_toGraph (hkeys : plot.KeysApart) {n l m : String} :
    (n, l, m) ∈ (plot.toGraph mode).steps ↔
      (n, l, m) ∈ plot.ownSteps ∨ (mode = .fanOut ∧ (n, l, m) ∈ plot.globalSteps) := by
  rw [← exists_shows_iff]
  constructor
  · rintro ⟨u, h⟩
    obtain ⟨s, flow, hshows, -, hlabel, htarget⟩ := shows_of_says hkeys h
    exact ⟨s, flow, hshows, hlabel, htarget⟩
  · rintro ⟨s, flow, hshows, rfl, rfl⟩
    exact ⟨s.transition, hshows.says hkeys⟩

/-- Without fan-out two paths with the same ends and label are the same. -/
lemma says_unique (hkeys : plot.KeysApart) {n l m u u' : String}
    (h : (plot.toGraph .omit).Says n l m u) (h' : (plot.toGraph .omit).Says n l m u') :
    u = u' := by
  obtain ⟨s, flow, ⟨node, hentry, -, hs⟩, rfl, rfl, rfl⟩ := shows_of_says hkeys h
  obtain ⟨s', flow', ⟨node', hentry', -, hs'⟩, rfl, hlabel, htarget⟩ := shows_of_says hkeys h'
  have hnode : plot.nodes.get? n = some node := Table.get?_eq_some_iff.mpr hentry
  have hnode' : plot.nodes.get? n = some node' := Table.get?_eq_some_iff.mpr hentry'
  obtain rfl : node = node' := Option.some.inj (hnode.symm.trans hnode')
  rcases hs with ⟨hs, -⟩ | ⟨hs, -⟩
  · rcases hs' with ⟨hs', -⟩ | ⟨hs', -⟩
    · rw [eq_of_twins_collapse hs hs' ⟨htarget.symm, hlabel.symm⟩]
    · cases hs'
  · cases hs

/-- The display graph means the same dialog as the plot.  If no id names both a node and a
transition, the steps of the graph without fan-out are those that participating nodes list, and
each of them is shown by exactly one turn of the user; with fan-out the steps that global nodes
list are added, from every participating node other than their target, and no others. -/
theorem dialog_preserved (plot : Plot) (hkeys : plot.KeysApart) :
    (plot.toGraph .omit).steps = plot.ownSteps ∧
    (∀ n l m, (n, l, m) ∈ plot.ownSteps → ∃! u, (plot.toGraph .omit).Says n l m u) ∧
    (plot.toGraph .fanOut).steps = plot.ownSteps ∪ plot.globalSteps := by
  have homit : (plot.toGraph .omit).steps = plot.ownSteps := by
    ext ⟨n, l, m⟩
    rw [mem_steps_toGraph hkeys]
    simp
  refine ⟨homit, ?_, ?_⟩
  · intro n l m h
    rw [← homit] at h
    obtain ⟨u, hu⟩ := h
    exact ⟨u, hu, fun u' hu' => says_unique hkeys hu' hu⟩
  · ext ⟨n, l, m⟩
    rw [mem_steps_toGraph hkeys]
    simp

/-- Two transitions of one node that look the same, one of them shared with another node, a
transition to nowhere and a global transition back: the step of the two is shown by exactly one
turn, and fan-out adds the global step. -/
theorem dialog_preserved_shared :
    let plot : Plot :=
      { nodes := .ofList [
          ("id#nd_a", { role := .regular, transitions := ["id#tr_1", "id#tr_2", "id#tr_3"] }),
          ("id#nd_b", { role := .regular, transitions := ["id#tr_2"] }),
          ("id#nd_g", { role := .global, transitions := ["id#tr_4"] })]
        transitions := .ofList [
          ("id#tr_1", { label := ⟨"id#nd_b"⟩ }), ("id#tr_2", { label := ⟨"id#nd_b"⟩ }),
          ("id#tr_3", { label := ⟨"id#nd_x"⟩ }), ("id#tr_4", { label := ⟨"id#nd_a"⟩ })] }
    plot.KeysApart ∧
      (∃! u, (plot.toGraph .omit).Says "id#nd_a" "unknown" "id#nd_b" u) ∧
      ("id#nd_b", "unknown", "id#nd_a") ∈ (plot.toGraph .fanOut).steps := by
  intro plot
  have hkeys : plot.KeysApart := by
    unfold Plot.KeysApart
    decide
  obtain ⟨-, hunique, hfanOut⟩ := dialog_preserved plot hkeys
  refine ⟨hkeys, hunique _ _ _ ?_, ?_⟩
  · refine ⟨_, "id#tr_1", ⟨rfl, rfl, by decide⟩, by decide, _, rfl, ?_, rfl, rfl⟩
    decide
  · rw [hfanOut]
    refine .inr ⟨⟨_, rfl, rfl, by decide⟩, ⟨"id#nd_g", _, "id#tr_4", rfl, rfl, by decide, ?_⟩,
      by decide⟩
    refine ⟨_, rfl, ?_, rfl, rfl⟩
    decide

end Derivation

end DialogChart
