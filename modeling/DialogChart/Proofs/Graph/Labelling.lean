import DialogChart.Proofs.Graph.Outline
import DialogChart.Proofs.Graph.Shape

/-!
# What the turns of the display graph say

In a plot in which no id names both a node and a transition, every turn of the display graph can be
read against the record it shows.  A turn of the user shows a transition: it carries the label of
its condition, one edge leaves it, to the target of the transition, and the edges that lead to it
come from participating nodes.  A turn of the bot shows a node: it carries the name and the flow of
the node, and it is there because the node participates or because an edge leads to it.

A transition may be listed by several nodes, regular and global ones, and a node may be met as a
target before its own turn comes.  Which of these meetings puts the turn into the graph makes no
difference to what the turn says, so each statement is proved for all origins of a turn at once
(`turn_cases`).
-/

namespace DialogChart

/-! ### Turns and records -/

/-- A turn of a graph shows a transition of a plot that leads to a target. -/
structure Turn.ShowsTransition (t : Turn) (plot : Plot) (g : Graph) (transition : Transition)
    (target : String) : Prop where
  record : plot.transitions.get? t.id = some transition
  leads : transition.label.node? = some target
  label : t.label = plot.conditionLabel transition.condition
  outgoing : g.edges.filter (·.source = t.id) = [⟨t.id, target⟩]
  incoming : ∃ n, g.hasEdge n t.id = true
  sources : ∀ n, g.hasEdge n t.id = true → ∃ node, plot.Participating n node

/-- A turn of a graph shows a node of a plot. -/
structure Turn.ShowsNode (t : Turn) (plot : Plot) (g : Graph) (node : Node) : Prop where
  record : plot.nodes.get? t.id = some node
  label : t.label = node.name.getD noName
  flow : t.flow = ((plot.flowOf? t.id).map (·.name)).getD noFlow
  occasion : plot.Participating t.id node ∨ ∃ u, g.hasEdge u t.id = true

namespace Derivation

variable {plot : Plot} {mode : GlobalTransitions}

/-! ### Turns of the user -/

/-- A turn of the user comes from a step that is shown. -/
lemma exists_shows_of_user {t : Turn} (ht : t ∈ (plot.toGraph mode).turns)
    (huser : t.speaker = .user) :
    ∃ n s flow, Shows plot mode n s flow ∧ s.transition = t.id ∧ s.label = t.label := by
  rcases turn_cases ht with ⟨id, node, -, -, rfl⟩ | ⟨n, s, flow, hshows, rfl | rfl⟩
  · cases huser
  · cases huser
  · exact ⟨n, s, flow, hshows, rfl, rfl⟩

/-- An edge from a live transition leads to its target. -/
lemma hasEdge_from_live (hkeys : plot.KeysApart) {u l m b : String} (hlive : plot.Live u l m)
    (h : (plot.toGraph mode).hasEdge u b = true) : b = m := by
  obtain ⟨n, s, flow, hshows, ⟨hsource, -⟩ | ⟨hstep, htarget⟩⟩ := hasEdge_toGraph.mp h
  · -- The source of an edge to a transition is a node, which a transition is not.
    obtain ⟨node, hpart⟩ := hshows.participating
    have hname : u ∈ plot.nodes.names := hsource ▸ Table.mem_names_of_get? hpart.1
    exact absurd hlive.mem_names (hkeys u hname)
  · have hlive' : plot.Live u s.label s.target := hstep ▸ hshows.live.1
    rw [htarget]
    exact (hlive'.unique hlive).2

/-- An edge to a live transition comes from a participating node. -/
lemma participating_of_hasEdge (hkeys : plot.KeysApart) {a u l m : String}
    (hlive : plot.Live u l m) (h : (plot.toGraph mode).hasEdge a u = true) :
    ∃ node, plot.Participating a node := by
  obtain ⟨n, s, flow, hshows, ⟨hsource, -⟩ | ⟨-, htarget⟩⟩ := hasEdge_toGraph.mp h
  · rw [hsource]
    exact hshows.participating
  · have hname : u ∈ plot.nodes.names := htarget ▸ Table.mem_names_of_get? hshows.live.2
    exact absurd hlive.mem_names (hkeys u hname)

/-- One edge leaves a transition that is shown. -/
lemma outgoing_of_live (hkeys : plot.KeysApart) {u l m : String} (hlive : plot.Live u l m)
    (hedge : (plot.toGraph mode).hasEdge u m = true) :
    (plot.toGraph mode).edges.filter (·.source = u) = [⟨u, m⟩] := by
  have hnodup := (nodup_edges_toGraph plot mode).filter fun e => decide (e.source = u)
  rw [← List.perm_singleton, List.perm_ext_iff_of_nodup hnodup (List.nodup_singleton _)]
  intro e
  rw [List.mem_filter, List.mem_singleton, decide_eq_true_eq]
  constructor
  · rintro ⟨he, rfl⟩
    have htarget : e.target = m := hasEdge_from_live hkeys hlive (List.contains_iff_mem.mpr he)
    rw [← htarget]
  · rintro rfl
    exact ⟨List.contains_iff_mem.mp hedge, rfl⟩

/-- Every turn of the user shows a transition. -/
lemma showsTransition_of_user (hkeys : plot.KeysApart) {t : Turn}
    (ht : t ∈ (plot.toGraph mode).turns) (huser : t.speaker = .user) :
    ∃ transition target, t.ShowsTransition plot (plot.toGraph mode) transition target := by
  obtain ⟨n, s, flow, hshows, hid, hlabel⟩ := exists_shows_of_user ht huser
  have hlive : plot.Live t.id s.label s.target := hid ▸ hshows.live.1
  have hleave : (plot.toGraph mode).hasEdge t.id s.target = true :=
    hasEdge_toGraph.mpr ⟨n, s, flow, hshows, .inr ⟨hid.symm, rfl⟩⟩
  have henter : (plot.toGraph mode).hasEdge n t.id = true :=
    hasEdge_toGraph.mpr ⟨n, s, flow, hshows, .inl ⟨rfl, hid.symm⟩⟩
  obtain ⟨transition, hrecord, hleads, -, hcondition⟩ := id hlive
  exact ⟨transition, s.target,
    { record := hrecord
      leads := hleads
      label := by rw [hcondition, hlabel]
      outgoing := outgoing_of_live hkeys hlive hleave
      incoming := ⟨n, henter⟩
      sources := fun _ h => participating_of_hasEdge hkeys hlive h }⟩

/-! ### Turns of the bot -/

/-- The turn of a known node says what the node says, if there is an occasion for it. -/
lemma showsNode_nodeTurn {g : Graph} {id : String} {node : Node}
    (hrecord : plot.nodes.get? id = some node)
    (hoccasion : plot.Participating id node ∨ ∃ u, g.hasEdge u id = true) :
    (nodeTurn plot id node).ShowsNode plot g node where
  record := hrecord
  label := rfl
  flow := flowName_eq plot id
  occasion := hoccasion

/-- Every turn of the bot shows a node. -/
lemma showsNode_of_bot {t : Turn} (ht : t ∈ (plot.toGraph mode).turns)
    (hbot : t.speaker = .bot) : ∃ node, t.ShowsNode plot (plot.toGraph mode) node := by
  rcases turn_cases ht with ⟨id, node, hentry, hpart, rfl⟩ | ⟨n, s, flow, hshows, rfl | rfl⟩
  · have hrecord : plot.nodes.get? id = some node := Table.get?_eq_some_iff.mpr hentry
    exact ⟨node, showsNode_nodeTurn hrecord (.inl ⟨hrecord, participates_iff.mp hpart⟩)⟩
  · have hedge : (plot.toGraph mode).hasEdge s.transition s.target = true :=
      hasEdge_toGraph.mpr ⟨n, s, flow, hshows, .inr ⟨rfl, rfl⟩⟩
    exact ⟨s.node, showsNode_nodeTurn hshows.live.2 (.inr ⟨s.transition, hedge⟩)⟩
  · cases hbot

/-- Every participating node has a turn of the bot. -/
lemma has_bot_of_participating (hkeys : plot.KeysApart) {n : String} {node : Node}
    (hpart : plot.Participating n node) : (plot.toGraph mode).Has .bot n := by
  have hemit : .turn (nodeTurn plot n node) ∈ emissions plot mode :=
    mem_emissions.mpr (.inl ⟨n, node, Table.get?_eq_some_iff.mp hpart.1,
      participates_iff.mpr hpart.2, rfl⟩)
  obtain ⟨t, ht, hid⟩ := exists_turn_toGraph hemit
  have hname : t.id ∈ plot.nodes.names := by
    rw [hid]
    exact Table.mem_names_of_get? hpart.1
  exact ⟨t, ht, hid, speaker_of_node hkeys ht hname⟩

/-! ### Edges -/

/-- Every edge leads from a turn of the bot to one of the user, or the other way. -/
lemma speakers_of_edge (hkeys : plot.KeysApart) {e : Edge} (he : e ∈ (plot.toGraph mode).edges) :
    ((plot.toGraph mode).Has .bot e.source ∧ (plot.toGraph mode).Has .user e.target) ∨
      ((plot.toGraph mode).Has .user e.source ∧ (plot.toGraph mode).Has .bot e.target) := by
  have hedge : (plot.toGraph mode).hasEdge e.source e.target = true :=
    List.contains_iff_mem.mpr he
  obtain ⟨n, s, flow, hshows, h⟩ := hasEdge_toGraph.mp hedge
  have hstep := hshows.says hkeys
  have huser : (plot.toGraph mode).Has .user s.transition := by
    obtain ⟨t, ht, hid, hspeaker, -⟩ := hstep.label
    exact ⟨t, ht, hid, hspeaker⟩
  rcases h with ⟨hsource, htarget⟩ | ⟨hsource, htarget⟩
  · rw [hsource, htarget]
    exact .inl ⟨hstep.source, huser⟩
  · rw [hsource, htarget]
    exact .inr ⟨huser, hstep.target⟩

/-- The shape and the labelling of the display graph.  If no id names both a node and a transition,
then in both modes every edge joins turns of different speakers, every turn of the user shows a
transition, every turn of the bot shows a node, and every participating node is shown. -/
theorem toGraph_shape_and_labels (plot : Plot) (hkeys : plot.KeysApart)
    (mode : GlobalTransitions) :
    (∀ e ∈ (plot.toGraph mode).edges,
      ((plot.toGraph mode).Has .bot e.source ∧ (plot.toGraph mode).Has .user e.target) ∨
        ((plot.toGraph mode).Has .user e.source ∧ (plot.toGraph mode).Has .bot e.target)) ∧
    (∀ t ∈ (plot.toGraph mode).turns, t.speaker = .user →
      ∃ transition target, t.ShowsTransition plot (plot.toGraph mode) transition target) ∧
    (∀ t ∈ (plot.toGraph mode).turns, t.speaker = .bot →
      ∃ node, t.ShowsNode plot (plot.toGraph mode) node) ∧
    ∀ n node, plot.Participating n node → (plot.toGraph mode).Has .bot n := by
  refine ⟨?_, ?_, ?_, ?_⟩
  · intro e he
    exact speakers_of_edge hkeys he
  · intro t ht huser
    exact showsTransition_of_user hkeys ht huser
  · intro t ht hbot
    exact showsNode_of_bot ht hbot
  · intro n node hpart
    exact has_bot_of_participating hkeys hpart

/-- A transition that a regular and a global node share, and a node without a name that two flows
list: the transition is shown by one turn with one edge to its target, and the turn of the node is
in the first of the two flows. -/
theorem toGraph_shape_and_labels_shared :
    let plot : Plot :=
      { flows := .ofList [("f1", { name := "first", nodes := ["id#nd_b"] }),
          ("f2", { name := "second", nodes := ["id#nd_a", "id#nd_b"] })]
        nodes := .ofList [
          ("id#nd_a", { role := .regular, name := some "start", transitions := ["id#tr_1"] }),
          ("id#nd_b", { role := .regular }),
          ("id#nd_g", { role := .global, transitions := ["id#tr_1"] })]
        transitions := .ofList [("id#tr_1", { label := ⟨"id#nd_b"⟩ })] }
    plot.KeysApart ∧
      (∃ transition target, (⟨"id#tr_1", "unknown", .user, "second"⟩ : Turn).ShowsTransition plot
        (plot.toGraph .fanOut) transition target) ∧
      ∃ node, (⟨"id#nd_b", "noname", .bot, "first"⟩ : Turn).ShowsNode plot
        (plot.toGraph .fanOut) node := by
  intro plot
  have hkeys : plot.KeysApart := by
    unfold Plot.KeysApart
    decide
  have huser : (⟨"id#tr_1", "unknown", .user, "second"⟩ : Turn) ∈ (plot.toGraph .fanOut).turns := by
    decide
  have hbot : (⟨"id#nd_b", "noname", .bot, "first"⟩ : Turn) ∈ (plot.toGraph .fanOut).turns := by
    decide
  obtain ⟨-, husers, hbots, -⟩ := toGraph_shape_and_labels plot hkeys .fanOut
  exact ⟨hkeys, husers _ huser rfl, hbots _ hbot rfl⟩

end Derivation

end DialogChart
