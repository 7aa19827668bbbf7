import DialogChart.Proofs.Graph.Dialog

/-!
# The shape of the display graph

The first part holds for every plot, also where ids collide, records are missing or references
lead nowhere: the ids of the turns are distinct, so are the edges, and both ends of an edge are
turns of the graph (`toGraph_wellFormed`).  While the graph is drawn, an edge is there before the
turns that it names; once all emissions are drawn, every id that an edge names has been emitted.

The second part is about plots in which no id names both a node and a transition.  There the
speakers take turns along every edge, a turn of the user always follows another turn, and a turn
of the bot that follows another turn is the target of a transition.
-/

namespace DialogChart

/-! ### Well-formed graphs -/

/-- The ids of the turns are distinct, the edges are distinct, and every edge leads from a turn of
the graph to a turn of the graph. -/
structure Graph.WellFormed (g : Graph) : Prop where
  ids : (g.turns.map (·.id)).Nodup
  edges : g.edges.Nodup
  sources : ∀ e ∈ g.edges, e.source ∈ g.turns.map (·.id)
  targets : ∀ e ∈ g.edges, e.target ∈ g.turns.map (·.id)

namespace Derivation

variable {plot : Plot} {mode : GlobalTransitions}

/-- No two turns of the display graph have the same id. -/
lemma nodup_ids_toGraph (plot : Plot) (mode : GlobalTransitions) :
    ((plot.toGraph mode).turns.map (·.id)).Nodup := by
  rw [toGraph_eq_draw, draw_eq_firsts]
  exact nodup_keys_firstsBy _ _

/-- No edge of the display graph is there twice. -/
lemma nodup_edges_toGraph (plot : Plot) (mode : GlobalTransitions) :
    (plot.toGraph mode).edges.Nodup := by
  rw [toGraph_eq_draw, draw_eq_firsts]
  simpa only [List.map_id] using
    nodup_keys_firstsBy id ((emissions plot mode).filterMap Emission.edge?)

/-- The id of everything that is emitted is the id of a turn of the display graph. -/
lemma id_mem_toGraph {t : Turn} (h : .turn t ∈ emissions plot mode) :
    t.id ∈ (plot.toGraph mode).turns.map (·.id) :=
  List.mem_map.mpr (exists_turn_toGraph h)

/-- The node that a step is shown from, the step and its target all have a turn. -/
lemma Shows.ids {n flow : String} {s : Step} (h : Shows plot mode n s flow) :
    n ∈ (plot.toGraph mode).turns.map (·.id) ∧
      s.transition ∈ (plot.toGraph mode).turns.map (·.id) ∧
      s.target ∈ (plot.toGraph mode).turns.map (·.id) := by
  have hstep : ∀ item ∈ stepEmissions plot n flow s, item ∈ emissions plot mode := by
    intro item hitem
    exact mem_emissions.mpr (.inr ⟨n, s, flow, h, hitem⟩)
  obtain ⟨node, hentry, hpart, -⟩ := h
  have hsource : .turn (nodeTurn plot n node) ∈ emissions plot mode :=
    mem_emissions.mpr (.inl ⟨n, node, hentry, hpart, rfl⟩)
  have huser : .turn ⟨s.transition, s.label, .user, flow⟩ ∈ emissions plot mode :=
    hstep _ (by simp [stepEmissions])
  have htarget : .turn (nodeTurn plot s.target s.node) ∈ emissions plot mode :=
    hstep _ (by simp [stepEmissions])
  exact ⟨id_mem_toGraph hsource, id_mem_toGraph huser, id_mem_toGraph htarget⟩

/-- Both ends of an edge of the display graph are ids of its turns. -/
lemma ends_mem_toGraph {a b : String} (h : (plot.toGraph mode).hasEdge a b = true) :
    a ∈ (plot.toGraph mode).turns.map (·.id) ∧ b ∈ (plot.toGraph mode).turns.map (·.id) := by
  obtain ⟨n, s, flow, hshows, ⟨rfl, rfl⟩ | ⟨rfl, rfl⟩⟩ := hasEdge_toGraph.mp h
  · obtain ⟨hsource, huser, -⟩ := hshows.ids
    exact ⟨hsource, huser⟩
  · obtain ⟨-, huser, htarget⟩ := hshows.ids
    exact ⟨huser, htarget⟩

/-- The display graph is well formed, whatever the plot holds and in both modes. -/
theorem toGraph_wellFormed (plot : Plot) (mode : GlobalTransitions) :
    (plot.toGraph mode).WellFormed := by
  have hends : ∀ e ∈ (plot.toGraph mode).edges,
      e.source ∈ (plot.toGraph mode).turns.map (·.id) ∧
        e.target ∈ (plot.toGraph mode).turns.map (·.id) := by
    intro e he
    exact ends_mem_toGraph (List.contains_iff_mem.mpr he)
  exact
    { ids := nodup_ids_toGraph plot mode
      edges := nodup_edges_toGraph plot mode
      sources := fun e he => (hends e he).1
      targets := fun e he => (hends e he).2 }

/-! ### Speakers take turns -/

/-- A turn with the id of a node that a step is shown from is one of the bot. -/
lemma Shows.speaker_source (hkeys : plot.KeysApart) {n flow : String} {s : Step}
    (h : Shows plot mode n s flow) {t : Turn} (ht : t ∈ (plot.toGraph mode).turns)
    (hid : t.id = n) : t.speaker = .bot := by
  obtain ⟨node, hpart⟩ := h.participating
  have hname : t.id ∈ plot.nodes.names := by
    rw [hid]
    exact Table.mem_names_of_get? hpart.1
  exact speaker_of_node hkeys ht hname

/-- A turn with the id of a step that is shown is one of the user. -/
lemma Shows.speaker_step (hkeys : plot.KeysApart) {n flow : String} {s : Step}
    (h : Shows plot mode n s flow) {t : Turn} (ht : t ∈ (plot.toGraph mode).turns)
    (hid : t.id = s.transition) : t.speaker = .user := by
  have hlive : plot.Live t.id s.label s.target := by
    rw [hid]
    exact h.live.1
  exact (speaker_of_transition hkeys ht hlive).1

/-- A turn with the id of the target of a step that is shown is one of the bot. -/
lemma Shows.speaker_target (hkeys : plot.KeysApart) {n flow : String} {s : Step}
    (h : Shows plot mode n s flow) {t : Turn} (ht : t ∈ (plot.toGraph mode).turns)
    (hid : t.id = s.target) : t.speaker = .bot := by
  have hname : t.id ∈ plot.nodes.names := by
    rw [hid]
    exact Table.mem_names_of_get? h.live.2
  exact speaker_of_node hkeys ht hname

/-- The speakers at the two ends of an edge are different. -/
lemma speaker_ne_of_edge (hkeys : plot.KeysApart) {a b : Turn}
    (ha : a ∈ (plot.toGraph mode).turns) (hb : b ∈ (plot.toGraph mode).turns)
    (h : (plot.toGraph mode).hasEdge a.id b.id = true) : a.speaker ≠ b.speaker := by
  obtain ⟨n, s, flow, hshows, ⟨han, hbt⟩ | ⟨hat, hbm⟩⟩ := hasEdge_toGraph.mp h
  · rw [hshows.speaker_source hkeys ha han, hshows.speaker_step hkeys hb hbt]
    exact fun heq => nomatch heq
  · rw [hshows.speaker_step hkeys ha hat, hshows.speaker_target hkeys hb hbm]
    exact fun heq => nomatch heq

/-- An edge leads to every turn of the user. -/
lemma exists_edge_to_user {t : Turn} (ht : t ∈ (plot.toGraph mode).turns)
    (huser : t.speaker = .user) : ∃ n, (plot.toGraph mode).hasEdge n t.id = true := by
  rcases turn_cases ht with ⟨id, node, -, -, rfl⟩ | ⟨n, s, flow, hshows, rfl | rfl⟩
  · cases huser
  · cases huser
  · exact ⟨n, hasEdge_toGraph.mpr ⟨n, s, flow, hshows, .inl ⟨rfl, rfl⟩⟩⟩

/-- A turn of the bot that an edge leads to is the target of a transition. -/
lemma exists_live_to_bot (hkeys : plot.KeysApart) {t : Turn}
    (ht : t ∈ (plot.toGraph mode).turns) (hbot : t.speaker = .bot) {a : String}
    (h : (plot.toGraph mode).hasEdge a t.id = true) : ∃ u l, plot.Live u l t.id := by
  obtain ⟨n, s, flow, hshows, ⟨-, hid⟩ | ⟨-, hid⟩⟩ := hasEdge_toGraph.mp h
  · rw [hshows.speaker_step hkeys ht hid] at hbot
    cases hbot
  · refine ⟨s.transition, s.label, ?_⟩
    rw [hid]
    exact hshows.live.1

end Derivation

end DialogChart
