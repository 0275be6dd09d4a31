import Mathlib.Data.List.Basic

/-!
# State graphs for message ordering

The adapter of `ada_state_machine`: a state machine with named states becomes a graph with dense
integer ids. A transition that names an unknown state is dropped, so **every edge ends in a state of
the graph** (`edge_fromMachine`), and with it every state that can be entered has a name. The `from`
and `to` of a transition are its source and its target here.
-/

namespace Bhf.AdaStateMachine

structure State where
  name : String
  openEntries : List String

structure Transition where
  source : String
  entry : String
  target : String

structure StateMachine where
  states : List State
  transitions : List Transition

abbrev StateId := ℕ

structure ProtocolEdge where
  source : StateId
  entry : String
  target : StateId

structure ProtocolStateGraph where
  states : List String
  openEntries : List (List String)
  initial : StateId
  edges : List ProtocolEdge

/-- The position of a name among the states. -/
def indexOf (states : List String) (name : String) : Option StateId :=
  states.findIdx? (· == name)

/-- The edge of a transition, unless it names an unknown state. -/
def edgeOf (states : List String) (transition : Transition) : Option ProtocolEdge := do
  let source ← indexOf states transition.source
  let target ← indexOf states transition.target
  pure ⟨source, transition.entry, target⟩

namespace ProtocolStateGraph

/-- The initial state is `ready` when there is one, else state 0. -/
def fromMachine (machine : StateMachine) : ProtocolStateGraph :=
  let states := machine.states.map State.name
  { states := states
    openEntries := machine.states.map State.openEntries
    initial := (indexOf states "ready").getD 0
    edges := machine.transitions.filterMap (edgeOf states) }

def stateName (graph : ProtocolStateGraph) (id : StateId) : Option String :=
  graph.states[id]?

/-- Entries that are open in a state. -/
def openEntriesAt (graph : ProtocolStateGraph) (state : StateId) : List String :=
  (graph.openEntries[state]?).getD []

def transitionsFrom (graph : ProtocolStateGraph) (state : StateId) : List ProtocolEdge :=
  graph.edges.filter fun edge ↦ edge.source == state

/-- The state reached by sending an entry: the first edge that leaves the state with it. -/
def nextState (graph : ProtocolStateGraph) (state : StateId) (entry : String) : Option StateId :=
  ((graph.transitionsFrom state).find? fun edge ↦ edge.entry == entry).map ProtocolEdge.target

/-- A step of the graph is one of its edges. -/
theorem exists_edge_of_nextState {graph : ProtocolStateGraph} {s t : StateId} {entry : String}
    (h : graph.nextState s entry = some t) :
    ∃ edge ∈ graph.edges, edge.entry = entry ∧ edge.target = t := by
  obtain ⟨edge, hfind, rfl⟩ := Option.map_eq_some_iff.mp h
  exact ⟨edge, (List.mem_filter.mp (List.mem_of_find?_eq_some hfind)).1,
    by simpa using List.find?_some hfind, rfl⟩

end ProtocolStateGraph

/-- An edge of a projected machine ends in one of its states and carries the entry of one of its
transitions. -/
theorem edge_fromMachine {machine : StateMachine} {edge : ProtocolEdge}
    (h : edge ∈ (ProtocolStateGraph.fromMachine machine).edges) :
    edge.target < machine.states.length ∧ ∃ t ∈ machine.transitions, t.entry = edge.entry := by
  obtain ⟨t, ht, hedge⟩ := List.mem_filterMap.mp h
  simp only [edgeOf, Option.bind_eq_bind, Option.bind_eq_some_iff, Option.pure_def,
    Option.some.injEq] at hedge
  obtain ⟨source, -, target, htarget, rfl⟩ := hedge
  exact ⟨by simpa using (List.findIdx?_eq_some_iff_getElem.mp htarget).1, t, ht, rfl⟩

end Bhf.AdaStateMachine
