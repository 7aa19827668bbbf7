import DialogChart.Proofs.Graph.Outline
import DialogChart.Proofs.Graph.Unreferenced

/-!
# The log accounts for every transition

A participating node lists transitions, some of which do not reach the display graph: they have no
record, they lead to no known node, or an earlier entry of the same list looks the same.  The log
tells which.  An `Entry` is one place of such a list, with what the list has before it; its `Fate`
is read off the tables of the plot, with no state and without the log.

The derivation decides about an entry with the steps that the node has shown so far.  These are the
first occurrences among the steps of the entries before it (`shownAfter`), so the twin that it finds
is the first one in the list (`map_transition_twin?`).  The main statement is
`log_accounts_for_transitions`: the records about fates are those of the entries, in order, and
every fate is what has become of the entry in the graph.
-/

namespace DialogChart

namespace Plot

open DialogChart.Derivation (participates)

/-! ### The entries of a plot -/

/-- A place in the transition list of a node: what the list has before it, and the transition. -/
structure Entry where
  node : String
  before : List String
  transition : String

/-- The entries of the list of a node, when some of it was read before. -/
def entriesFrom (n : String) (before : List String) : List String → List Entry
  | [] => []
  | t :: rest => ⟨n, before, t⟩ :: entriesFrom n (before ++ [t]) rest

/-- The entries of all participating nodes, in the order of the document. -/
def listing (plot : Plot) : List Entry :=
  (plot.nodes.entries.filter fun e => participates e.2).flatMap fun e =>
    entriesFrom e.1 [] e.2.transitions

/-- The entries of a list stand for its transitions, in order. -/
lemma map_transition_entriesFrom (n : String) (before ts : List String) :
    (entriesFrom n before ts).map (·.transition) = ts := by
  induction ts generalizing before with
  | nil => rfl
  | cons t rest ih => rw [entriesFrom, List.map_cons, ih]

/-- The entries of a plot stand for the transitions that participating nodes list, in order. -/
lemma map_transition_listing (plot : Plot) :
    plot.listing.map (·.transition) = plot.listed := by
  have hrecords : plot.nodes.records.filter participates =
      (plot.nodes.entries.filter fun e => participates e.2).map Prod.snd := List.filter_map
  unfold listing listed
  rw [List.map_flatMap, hrecords, List.flatMap_map]
  simp only [map_transition_entriesFrom]

/-- An entry of a list is what the list has before and at one of its places. -/
lemma mem_entriesFrom {n : String} {before ts : List String} {e : Entry}
    (h : e ∈ entriesFrom n before ts) :
    e.node = n ∧ ∃ after, before ++ ts = e.before ++ e.transition :: after := by
  induction ts generalizing before with
  | nil => cases h
  | cons t rest ih =>
    rcases List.mem_cons.mp h with rfl | h
    · exact ⟨rfl, rest, rfl⟩
    · obtain ⟨hnode, after, hsplit⟩ := ih h
      exact ⟨hnode, after, by rw [← hsplit, List.append_assoc, List.singleton_append]⟩

/-- An entry of a plot is a place in the list of a participating node. -/
lemma mem_listing {plot : Plot} {e : Entry} (h : e ∈ plot.listing) :
    ∃ node after, (e.node, node) ∈ plot.nodes.entries ∧ participates node = true ∧
      node.transitions = e.before ++ e.transition :: after := by
  obtain ⟨⟨n, node⟩, hentry, hplace⟩ := List.mem_flatMap.mp h
  obtain ⟨hentry, hpart⟩ := List.mem_filter.mp hentry
  obtain ⟨rfl, after, hsplit⟩ := mem_entriesFrom hplace
  exact ⟨node, after, hentry, hpart, hsplit⟩

/-! ### Fates -/

/-- What becomes of an entry. -/
inductive Fate where
  /-- The transition has no record. -/
  | noRecord
  /-- The label of the transition is no known node. -/
  | unknownNode (label : String)
  /-- The transition looks like an earlier one. -/
  | collapsed (into : String)
  /-- The transition is shown. -/
  | kept
  deriving DecidableEq

/-- The log record that tells the fate of a transition; of one that is kept nothing is told. -/
def Fate.record? (t : String) : Fate → Option LogRecord
  | .noRecord => some
    { level := .debug
      message := "Dropping transition without a record"
      fields := [("transition_id", .text t)] }
  | .unknownNode label => some
    { level := .debug
      message := "Dropping transition to an unknown node"
      fields := [("transition_id", .text t), ("label", .text label)] }
  | .collapsed into => some
    { level := .trace
      message := "Collapsing duplicate transition"
      fields := [("transition_id", .text t), ("merged_into", .text into)] }
  | .kept => none

/-- The first one of the entries before an entry that has the same target and label. -/
def twinOf? (plot : Plot) (e : Entry) : Option String :=
  e.before.find? fun t =>
    plot.target? t = plot.target? e.transition ∧ plot.labelOf t = plot.labelOf e.transition

/-- The fate of an entry, from the tables. -/
def fate (plot : Plot) (e : Entry) : Fate :=
  match plot.transitions.get? e.transition with
  | none => .noRecord
  | some transition =>
    if (plot.target? e.transition).isSome then (plot.twinOf? e).elim .kept .collapsed
    else .unknownNode transition.label.raw

/-- An entry meets a fate, as far as the plot and a graph of it tell.  The transition into which it
is collapsed is the first one of the list that leads to the same node under the same label, it is
listed earlier, and the graph shows it; a transition that is kept is itself the first one of this
kind, and the graph shows it. -/
def Entry.Meets (plot : Plot) (g : Graph) (e : Entry) : Fate → Prop
  | .noRecord => plot.transitions.get? e.transition = none
  | .unknownNode label => ∃ transition, plot.transitions.get? e.transition = some transition ∧
      transition.label.node?.bind plot.nodes.get? = none ∧ transition.label.raw = label
  | .collapsed into => ∃ label target, plot.Live e.transition label target ∧
      (∃ earlier later, e.before = earlier ++ into :: later ∧ plot.Live into label target ∧
        ∀ t ∈ earlier, ¬ plot.Live t label target) ∧
      g.hasEdge e.node into = true ∧ g.hasEdge into target = true
  | .kept => ∃ label target, plot.Live e.transition label target ∧
      (∀ t ∈ e.before, ¬ plot.Live t label target) ∧
      g.hasEdge e.node e.transition = true ∧ g.hasEdge e.transition target = true

end Plot

/-- A record tells the fate of a transition that is dropped or collapsed. -/
def LogRecord.tellsFate (r : LogRecord) : Bool :=
  r.message ∈ ["Dropping transition without a record", "Dropping transition to an unknown node",
    "Collapsing duplicate transition"]

namespace Derivation

open DialogChart.Plot (Entry Fate entriesFrom)

variable {plot : Plot}

/-! ### What happens on the way to a step -/

/-- A transition without a record has no step. -/
lemma step_of_noRecord {t : String} (h : plot.transitions.get? t = none) :
    step plot t = (none, [.noRecord t]) := by
  unfold step
  rw [h]

/-- A transition with a record leads nowhere exactly if its label is no known node. -/
lemma target?_eq_none_iff {t : String} {transition : Transition}
    (h : plot.transitions.get? t = some transition) :
    plot.target? t = none ↔ transition.label.node?.bind plot.nodes.get? = none := by
  unfold Plot.target?
  rw [h, Option.bind_some]
  cases transition.label.node? with
  | none => simp
  | some m => simp [Option.filter_some]

/-- A transition to no known node has no step. -/
lemma step_of_unknownNode {t : String} {transition : Transition}
    (h : plot.transitions.get? t = some transition) (htarget : plot.target? t = none) :
    step plot t = (none, [.unknownTarget t transition.label.raw]) := by
  have hnone : (transition.label.node?.bind fun id =>
      (plot.nodes.get? id).map fun n => (id, n)) = none := by
    rw [target?_eq_none_iff h, Option.bind_eq_none_iff] at htarget
    simpa only [Option.bind_eq_none_iff, Option.map_eq_none_iff] using htarget
  unfold step
  simp only [h, hnone]

/-- Of a transition with a step only its condition may be noted. -/
lemma unlabelled_of_step {t : String} {s : Step} (h : (step plot t).1 = some s) {ev : Event}
    (hev : ev ∈ (step plot t).2) : ∃ reason, ev = .unlabelled reason := by
  unfold step at h hev
  split at h
  · cases h
  · split at h
    · cases h
    · split at h <;> simp_all

/-! ### Twins -/

/-- The steps of some transitions. -/
def stepsOf (plot : Plot) (ts : List String) : List Step :=
  ts.filterMap fun t => (step plot t).1

/-- The steps that a node has shown after some of its entries. -/
def shownAfter (plot : Plot) (before : List String) : List Step :=
  firstsBy Step.look (stepsOf plot before)

/-- The step of a live transition has the target and the label of the transition. -/
lemma look_of_step {t : String} {s : Step} (h : (step plot t).1 = some s) :
    s.transition = t ∧ plot.target? t = some s.target ∧ plot.labelOf t = s.label := by
  obtain ⟨htransition, hlive, -⟩ := live_of_step h
  exact ⟨htransition, Plot.live_iff.mp hlive⟩

/-- A transition has the look of a live one exactly if it has a step with the look of its step. -/
lemma any_step_look {t other : String} {s : Step} (h : (step plot t).1 = some s) :
    (step plot other).1.any (fun s' => decide (s'.look = s.look)) =
      decide (plot.target? other = plot.target? t ∧ plot.labelOf other = plot.labelOf t) := by
  obtain ⟨-, htarget, hlabel⟩ := look_of_step h
  rw [htarget, hlabel]
  cases hother : (step plot other).1 with
  | none =>
    have hnone : plot.target? other = none := by
      rw [← Option.not_isSome_iff_eq_none, ← isSome_step, hother]
      simp
    simp [hnone]
  | some s' =>
    obtain ⟨-, htarget', hlabel'⟩ := look_of_step hother
    simp [htarget', hlabel', Step.look]

/-- The shown step that looks like the step of an entry is the first one in the list before it. -/
lemma map_transition_twin? (n : String) (before : List String) {t : String} {s : Step}
    (h : (step plot t).1 = some s) :
    (twin? (shownAfter plot before) s).map (·.transition) = plot.twinOf? ⟨n, before, t⟩ := by
  have hlook : (fun other : Step => decide (other.target = s.target ∧ other.label = s.label)) =
      fun other => decide (other.look = s.look) := by
    funext other
    simp [Step.look]
  unfold twin? Plot.twinOf? shownAfter stepsOf
  rw [hlook, find?_firstsBy, List.find?_filterMap]
  simp only [any_step_look h]
  -- What is found is live, and its step bears its id.
  cases hfind : before.find? (fun other => decide (plot.target? other = plot.target? t ∧
      plot.labelOf other = plot.labelOf t)) with
  | none => rfl
  | some other =>
    have hother := List.find?_some hfind
    rw [← any_step_look h] at hother
    obtain ⟨s', hs', -⟩ := (Option.any_eq_true ..).mp hother
    rw [Option.bind_some, hs', Option.map_some, (look_of_step hs').1]

/-- After a transition without a step the same steps are shown. -/
lemma shownAfter_concat_none (before : List String) {t : String} (h : (step plot t).1 = none) :
    shownAfter plot (before ++ [t]) = shownAfter plot before := by
  have hsteps : stepsOf plot (before ++ [t]) = stepsOf plot before := by
    simp [stepsOf, List.filterMap_append, h]
  rw [shownAfter, hsteps, shownAfter]

/-- After a transition with a step the step is shown, unless a shown one looks the same. -/
lemma shownAfter_concat_some (before : List String) {t : String} {s : Step}
    (h : (step plot t).1 = some s) :
    shownAfter plot (before ++ [t]) =
      if (twin? (shownAfter plot before) s).isSome then shownAfter plot before
      else shownAfter plot before ++ [s] := by
  have hsteps : stepsOf plot (before ++ [t]) = stepsOf plot before ++ [s] := by
    simp [stepsOf, List.filterMap_append, h]
  have htwin : (twin? (shownAfter plot before) s).isSome = true ↔
      s.look ∈ (stepsOf plot before).map Step.look := by
    rw [← mem_keys_firstsBy, Option.isSome_iff_ne_none]
    exact twin?_isSome_iff
  rw [shownAfter, hsteps, firstsBy_concat]
  by_cases hseen : s.look ∈ (stepsOf plot before).map Step.look
  · rw [if_pos hseen, if_pos (htwin.mpr hseen), shownAfter]
  · rw [if_neg hseen, if_neg (mt htwin.mp hseen), shownAfter]

/-! ### The fate of an entry -/

/-- What the fate of an entry depends on. -/
lemma fate_cases (plot : Plot) (e : Entry) :
    (plot.transitions.get? e.transition = none ∧ plot.fate e = .noRecord) ∨
      (∃ transition, plot.transitions.get? e.transition = some transition ∧
        plot.target? e.transition = none ∧ plot.fate e = .unknownNode transition.label.raw) ∨
      ∃ m, plot.target? e.transition = some m ∧
        plot.fate e = (plot.twinOf? e).elim .kept .collapsed := by
  unfold Plot.fate
  cases hget : plot.transitions.get? e.transition with
  | none => exact .inl ⟨rfl, rfl⟩
  | some transition =>
    cases htarget : plot.target? e.transition with
    | none => exact .inr (.inl ⟨transition, rfl, rfl, rfl⟩)
    | some m => exact .inr (.inr ⟨m, rfl, rfl⟩)

/-- What is noted of a fate after the step was looked for. -/
def Fate.events (t : String) : Fate → List Event
  | .collapsed into => [.collapsed t into]
  | _ => []

/-- What happens to an entry: what happens on the way to its step, and its collapse. -/
def entryEvents (plot : Plot) (e : Entry) : List Event :=
  (step plot e.transition).2 ++ Fate.events e.transition (plot.fate e)

/-- An entry without a step does not collapse. -/
lemma fate_of_step_none {e : Entry} (h : (step plot e.transition).1 = none) :
    Fate.events e.transition (plot.fate e) = [] := by
  rcases fate_cases plot e with ⟨-, hfate⟩ | ⟨transition, -, -, hfate⟩ | ⟨m, htarget, -⟩
  · rw [hfate]
    rfl
  · rw [hfate]
    rfl
  · have hsome := isSome_step plot e.transition
    rw [h, htarget] at hsome
    cases hsome

/-- An entry with a step collapses into its twin, or is kept. -/
lemma fate_of_step_some {e : Entry} {s : Step} (h : (step plot e.transition).1 = some s) :
    plot.fate e = (plot.twinOf? e).elim .kept .collapsed := by
  obtain ⟨-, htarget, -⟩ := look_of_step h
  rcases fate_cases plot e with ⟨hget, -⟩ | ⟨transition, -, hnone, -⟩ | ⟨m, -, hfate⟩
  · rw [step_of_noRecord hget] at h
    cases h
  · rw [hnone] at htarget
    cases htarget
  · exact hfate

/-- Of the records of an entry one tells its fate, if the entry is not kept. -/
lemma filter_tellsFate_entryEvents (plot : Plot) (e : Entry) :
    ((entryEvents plot e).map (·.record)).filter (·.tellsFate) =
      ((plot.fate e).record? e.transition).toList := by
  unfold entryEvents
  rw [List.map_append, List.filter_append]
  rcases fate_cases plot e with ⟨hget, hfate⟩ | ⟨transition, hget, htarget, hfate⟩ |
    ⟨m, htarget, hfate⟩
  · rw [step_of_noRecord hget, hfate]
    rfl
  · rw [step_of_unknownNode hget htarget, hfate]
    rfl
  · obtain ⟨s, hs, -, -⟩ := step_of_live (Plot.live_iff.mpr ⟨htarget, rfl⟩)
    have hway : ((step plot e.transition).2.map (·.record)).filter (·.tellsFate) = [] := by
      refine List.filter_eq_nil_iff.mpr fun r hr => ?_
      obtain ⟨ev, hev, rfl⟩ := List.mem_map.mp hr
      obtain ⟨reason, rfl⟩ := unlabelled_of_step hs hev
      cases reason <;> simp [Event.record, LogRecord.tellsFate]
    rw [hway, hfate]
    cases plot.twinOf? e with
    | none => rfl
    | some into => rfl

/-! ### The log of a run -/

/-- Adding a turn notes nothing. -/
lemma events_addTurn (d : Draft) (t : Turn) : (d.addTurn t).events = d.events := by
  unfold Draft.addTurn
  split <;> rfl

/-- Adding an edge notes nothing. -/
lemma events_addEdge (d : Draft) (e : Edge) : (d.addEdge e).events = d.events := by
  unfold Draft.addEdge
  split <;> rfl

/-- Adding a step notes nothing. -/
lemma events_addStep (source flow : String) (s : Step) (d : Draft) :
    (d.addStep plot source flow s).events = d.events := by
  unfold Draft.addStep Draft.addNode
  rw [events_addEdge, events_addTurn, events_addTurn, events_addEdge]

/-- One entry: what happens to it is noted, and what is shown afterwards are again the first
occurrences. -/
lemma addTransition_entry {source : String} {before : List String} {d : Draft}
    (h : Tells d.shown source (shownAfter plot before)) (t : String) :
    (addTransition plot source d t).events =
        (entryEvents plot ⟨source, before, t⟩).reverse ++ d.events ∧
      Tells (addTransition plot source d t).shown source (shownAfter plot (before ++ [t])) := by
  unfold entryEvents
  cases hfound : (step plot t).1 with
  | none =>
    rw [addTransition_of_none hfound, fate_of_step_none hfound,
      shownAfter_concat_none before hfound, List.append_nil]
    exact ⟨rfl, h⟩
  | some s =>
    have hfate := fate_of_step_some (e := ⟨source, before, t⟩) hfound
    rw [← map_transition_twin? source before hfound] at hfate
    rw [shownAfter_concat_some before hfound, hfate]
    cases htwin : twin? (shownAfter plot before) s with
    | some other =>
      rw [addTransition_of_some hfound ((h s).trans (congrArg _ htwin)), List.reverse_append,
        List.append_assoc]
      exact ⟨rfl, h⟩
    | none =>
      have htells := h.addTransition_of_new hfound htwin
      rw [addTransition_of_new hfound ((h s).trans (congrArg _ htwin))] at htells ⊢
      rw [events_addStep, List.reverse_append, List.append_assoc]
      exact ⟨rfl, htells⟩

/-- The entries of a list, one after the other. -/
lemma events_foldl_addTransition {source : String} {before : List String} (ts : List String)
    {d : Draft} (h : Tells d.shown source (shownAfter plot before)) :
    (ts.foldl (addTransition plot source) d).events =
      ((entriesFrom source before ts).flatMap (entryEvents plot)).reverse ++ d.events := by
  induction ts generalizing before d with
  | nil => rfl
  | cons t rest ih =>
    obtain ⟨hevents, hshown⟩ := addTransition_entry h t
    rw [List.foldl_cons, ih hshown, hevents, entriesFrom, List.flatMap_cons, List.reverse_append,
      List.append_assoc]

/-- A participating node without global steps, of which no transition is shown. -/
lemma events_addSource {d : Draft} {id : String} (node : Node) (h : Tells d.shown id []) :
    (addSource plot [] d id node).events =
      ((entriesFrom id [] node.transitions).flatMap (entryEvents plot)).reverse ++ d.events := by
  have htells : Tells (d.addNode plot id node).shown id (shownAfter plot []) := by
    unfold Draft.addNode
    rw [shown_addTurn]
    exact h
  have hloop := events_foldl_addTransition node.transitions htells
  rw [Draft.addNode, events_addTurn] at hloop
  exact hloop

/-- What happens to the transitions of a node, if it participates. -/
def nodeEvents (plot : Plot) (entry : String × Node) : List Event :=
  if participates entry.2 then
    (entriesFrom entry.1 [] entry.2.transitions).flatMap (entryEvents plot)
  else []

/-- What happens to the entries of a plot, node by node. -/
lemma flatMap_nodeEvents (plot : Plot) :
    plot.nodes.entries.flatMap (nodeEvents plot) = plot.listing.flatMap (entryEvents plot) := by
  unfold nodeEvents
  rw [flatMap_ite_nil (fun entry : String × Node => participates entry.2), ← List.flatMap_assoc]
  rfl

/-- A node of which no transition is shown. -/
lemma events_addEntry {d : Draft} {entry : String × Node} (h : Tells d.shown entry.1 []) :
    (addEntry plot [] d entry).events = (nodeEvents plot entry).reverse ++ d.events := by
  unfold addEntry nodeEvents
  split
  · exact events_addSource entry.2 h
  · rfl

/-- What happens in a run without fan-out: what happens to the entries, in order, and the count. -/
lemma events_run (plot : Plot) :
    (run .omit plot).events =
      .derived (plot.toGraph .omit).turns.length (plot.toGraph .omit).edges.length ::
        (plot.listing.flatMap (entryEvents plot)).reverse := by
  have hloop := foldl_addEntry plot [] Draft.events
    (fun events entry => (nodeEvents plot entry).reverse ++ events)
    (fun _ _ => events_addEntry) plot.nodes.nodup {} fun _ _ _ => rfl
  rw [List.foldl_flip_append_eq_append, List.append_nil, ← List.map_reverse] at hloop
  rw [← flatMap_nodeEvents, List.reverse_flatMap]
  exact congrArg _ hloop

/-- The records that tell fates are those of the entries, in order. -/
lemma filter_tellsFate_records (plot : Plot) :
    (plot.toGraphLogged .omit).records.filter (·.tellsFate) =
      plot.listing.filterMap fun e => (plot.fate e).record? e.transition := by
  have hrecords : (plot.toGraphLogged .omit).records =
      (run .omit plot).events.reverse.map (·.record) := rfl
  rw [hrecords, events_run, List.reverse_cons, List.reverse_reverse, List.map_append,
    List.filter_append, List.map_flatMap, List.filter_flatMap, List.filterMap_eq_flatMap_toList]
  simp only [filter_tellsFate_entryEvents]
  exact List.append_nil _

/-! ### Fates and the graph -/

/-- The twin of a live entry is the first transition of the list that leads to the same node under
the same label. -/
lemma twinOf?_eq_some_iff {e : Entry} {m into : String} (h : plot.target? e.transition = some m) :
    plot.twinOf? e = some into ↔
      ∃ earlier later, e.before = earlier ++ into :: later ∧
        plot.Live into (plot.labelOf e.transition) m ∧
        ∀ t ∈ earlier, ¬ plot.Live t (plot.labelOf e.transition) m := by
  unfold Plot.twinOf?
  rw [List.find?_eq_some_iff_append]
  simp only [h, ← Plot.live_iff, decide_eq_true_eq, Bool.not_eq_true', decide_eq_false_iff_not]
  constructor
  · rintro ⟨hinto, earlier, later, hsplit, hfirst⟩
    exact ⟨earlier, later, hsplit, hinto, hfirst⟩
  · rintro ⟨earlier, later, hsplit, hinto, hfirst⟩
    exact ⟨hinto, earlier, later, hsplit, hfirst⟩

/-- A live entry has no twin exactly if no transition before it leads to the same node under the
same label. -/
lemma twinOf?_eq_none_iff {e : Entry} {m : String} (h : plot.target? e.transition = some m) :
    plot.twinOf? e = none ↔
      ∀ t ∈ e.before, ¬ plot.Live t (plot.labelOf e.transition) m := by
  unfold Plot.twinOf?
  rw [List.find?_eq_none]
  simp only [h, ← Plot.live_iff, decide_eq_true_eq]

/-- The first transition of a participating node that leads to a node under a label is shown. -/
lemma hasEdge_of_first {n : String} {node : Node} (hentry : (n, node) ∈ plot.nodes.entries)
    (hpart : participates node = true) {earlier later : List String} {t label target : String}
    (hsplit : node.transitions = earlier ++ t :: later) (hlive : plot.Live t label target)
    (hfirst : ∀ t' ∈ earlier, ¬ plot.Live t' label target) :
    (plot.toGraph .omit).hasEdge n t = true ∧ (plot.toGraph .omit).hasEdge t target = true := by
  obtain ⟨s, hs, rfl, rfl⟩ := step_of_live hlive
  obtain ⟨rfl, -, -⟩ := live_of_step hs
  have hsteps : liveSteps plot node = stepsOf plot earlier ++ s :: stepsOf plot later := by
    unfold liveSteps stepsOf
    rw [hsplit, List.filterMap_append, List.filterMap_cons_some (f := fun t => (step plot t).1) hs]
  have hnew : s.look ∉ (stepsOf plot earlier).map Step.look := by
    intro hold
    obtain ⟨s', hs', hlook⟩ := List.mem_map.mp hold
    obtain ⟨t', ht', hstep⟩ := List.mem_filterMap.mp hs'
    obtain ⟨-, hlive', -⟩ := live_of_step hstep
    obtain ⟨htarget, hlabel⟩ := Prod.mk.inj hlook
    rw [hlabel, Option.some.inj htarget] at hlive'
    exact hfirst t' ht' hlive'
  have hkept : s ∈ collapse [] (liveSteps plot node) := by
    have hcollapse : collapse [] (liveSteps plot node) =
        firstsBy Step.look (liveSteps plot node) := firstsBy_append_collapse [] _
    rw [hcollapse, hsteps]
    exact mem_firstsBy_of_new Step.look _ hnew
  have hshows : Shows plot .omit n s (flowName plot n) :=
    ⟨node, hentry, hpart, .inl ⟨hkept, rfl⟩⟩
  exact ⟨hasEdge_toGraph.mpr ⟨n, s, _, hshows, .inl ⟨rfl, rfl⟩⟩,
    hasEdge_toGraph.mpr ⟨n, s, _, hshows, .inr ⟨rfl, rfl⟩⟩⟩

/-- An entry meets its fate in the display graph. -/
lemma meets_fate {e : Entry} (he : e ∈ plot.listing) :
    e.Meets plot (plot.toGraph .omit) (plot.fate e) := by
  obtain ⟨node, after, hentry, hpart, hplace⟩ := Plot.mem_listing he
  rcases fate_cases plot e with ⟨hget, hfate⟩ | ⟨transition, hget, htarget, hfate⟩ |
    ⟨m, htarget, hfate⟩
  · rw [hfate]
    exact hget
  · rw [hfate]
    exact ⟨transition, hget, (target?_eq_none_iff hget).mp htarget, rfl⟩
  · have hlive : plot.Live e.transition (plot.labelOf e.transition) m :=
      Plot.live_iff.mpr ⟨htarget, rfl⟩
    rw [hfate]
    cases htwin : plot.twinOf? e with
    | none =>
      have hfirst := (twinOf?_eq_none_iff htarget).mp htwin
      exact ⟨_, m, hlive, hfirst, hasEdge_of_first hentry hpart hplace hlive hfirst⟩
    | some into =>
      obtain ⟨earlier, later, hsplit, hinto, hfirst⟩ := (twinOf?_eq_some_iff htarget).mp htwin
      rw [hsplit, List.append_assoc, List.cons_append] at hplace
      exact ⟨_, m, hlive, ⟨earlier, later, hsplit, hinto, hfirst⟩,
        hasEdge_of_first hentry hpart hplace hinto hfirst⟩

/-- An entry meets no other fate than its own. -/
lemma fate_of_meets {g : Graph} {e : Entry} {fate : Fate} (h : e.Meets plot g fate) :
    plot.fate e = fate := by
  cases fate with
  | noRecord =>
    have hget : plot.transitions.get? e.transition = none := h
    simp only [Plot.fate, hget]
  | unknownNode label =>
    obtain ⟨transition, hget, hlabel, rfl⟩ := h
    have htarget := (target?_eq_none_iff hget).mpr hlabel
    simp only [Plot.fate, hget, htarget, Option.isSome_none, Bool.false_eq_true, if_false]
  | collapsed into =>
    obtain ⟨label, m, hlive, hfirst, -⟩ := h
    obtain ⟨s, hs, -, -⟩ := step_of_live hlive
    obtain ⟨htarget, rfl⟩ := Plot.live_iff.mp hlive
    rw [fate_of_step_some hs, (twinOf?_eq_some_iff htarget).mpr hfirst]
    rfl
  | kept =>
    obtain ⟨label, m, hlive, hfirst, -⟩ := h
    obtain ⟨s, hs, -, -⟩ := step_of_live hlive
    obtain ⟨htarget, rfl⟩ := Plot.live_iff.mp hlive
    rw [fate_of_step_some hs, (twinOf?_eq_none_iff htarget).mpr hfirst]
    rfl

/-- Every entry has a record that tells its fate or is kept. -/
lemma length_records_add_kept (entries : List Entry) :
    (entries.filterMap fun e => (plot.fate e).record? e.transition).length +
        (entries.filter fun e => plot.fate e = .kept).length = entries.length := by
  have hkept : ∀ e, decide (plot.fate e = .kept) =
      ((plot.fate e).record? e.transition).isNone := by
    intro e
    cases plot.fate e <;> rfl
  simp only [hkept]
  induction entries with
  | nil => rfl
  | cons e rest ih =>
    rw [List.filterMap_cons, List.filter_cons, List.length_cons, ← ih]
    cases (plot.fate e).record? e.transition with
    | none => exact (Nat.add_assoc _ _ 1).symm
    | some r => exact Nat.add_right_comm _ 1 _

/-- The log accounts for every transition.  Without fan-out, the records of the log about dropped
and collapsed transitions are, in order, those of the entries of the participating nodes, one for
each entry that is not kept; every entry meets exactly one fate, its own, in the display graph; and
the records about fates and the entries that are kept add up to the transitions that the
participating nodes list. -/
theorem log_accounts_for_transitions (plot : Plot) :
    let logged := plot.toGraphLogged .omit
    logged.records.filter (·.tellsFate) =
        plot.listing.filterMap (fun e => (plot.fate e).record? e.transition) ∧
      (∀ e ∈ plot.listing, ∀ fate, e.Meets plot logged.value fate ↔ plot.fate e = fate) ∧
      (logged.records.filter (·.tellsFate)).length +
          (plot.listing.filter fun e => plot.fate e = .kept).length = plot.listed.length := by
  refine ⟨filter_tellsFate_records plot, ?_, ?_⟩
  · intro e he fate
    constructor
    · exact fate_of_meets
    · rintro rfl
      exact meets_fate he
  · rw [filter_tellsFate_records, length_records_add_kept, ← Plot.map_transition_listing,
      List.length_map]

/-- A list with a transition that has no record, two that look the same, one of these once more and
one to nowhere, and a list with the second of the two: it is collapsed for the one node and kept for
the other. -/
theorem log_accounts_for_transitions_shared :
    let plot : Plot :=
      { nodes := .ofList [
          ("id#nd_a", { role := .regular
                        transitions := ["id#tr_0", "id#tr_1", "id#tr_2", "id#tr_1", "id#tr_3"] }),
          ("id#nd_b", { role := .regular, transitions := ["id#tr_2"] })]
        transitions := .ofList [
          ("id#tr_1", { label := ⟨"id#nd_b"⟩ }), ("id#tr_2", { label := ⟨"id#nd_b"⟩ }),
          ("id#tr_3", { label := ⟨"id#nd_c"⟩ })] }
    let g := (plot.toGraphLogged .omit).value
    let collapsed : Plot.Entry := ⟨"id#nd_a", ["id#tr_0", "id#tr_1"], "id#tr_2"⟩
    let kept : Plot.Entry := ⟨"id#nd_b", [], "id#tr_2"⟩
    plot.listing.map plot.fate =
        [.noRecord, .kept, .collapsed "id#tr_1", .collapsed "id#tr_1", .unknownNode "id#nd_c",
          .kept] ∧
      (collapsed ∈ plot.listing ∧ collapsed.Meets plot g (.collapsed "id#tr_1")) ∧
      (kept ∈ plot.listing ∧ kept.Meets plot g .kept) ∧
      ((plot.toGraphLogged .omit).records.filter (·.tellsFate)).length + 2 = 6 := by
  intro plot g collapsed kept
  obtain ⟨-, hmeets, hcount⟩ := log_accounts_for_transitions plot
  have hcollapsed : collapsed ∈ plot.listing := .tail _ (.tail _ (.head _))
  have hkept : kept ∈ plot.listing :=
    .tail _ (.tail _ (.tail _ (.tail _ (.tail _ (.head _)))))
  exact ⟨by decide, ⟨hcollapsed, (hmeets _ hcollapsed _).mpr (by decide)⟩,
    ⟨hkept, (hmeets _ hkept _).mpr (by decide)⟩, hcount⟩

end Derivation

end DialogChart
