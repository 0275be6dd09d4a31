import Mathlib.Data.Finset.Option

/-!
# Attribution of a collector's events

`attribute` goes over the events of a session, grows the set of process ids that descend from the
testcase's root process, and keeps the events of these processes up to the end of the observation
window. Whether an event belongs is decided from the parent and the ancestor that this event
carries. The ids it collects are those of the descendants all the same (`descendants`), but **an
event is passed over, neither kept nor counted, if its process has joined before and the event
itself names neither** a parent in the tree nor the root.

Timestamps are only compared with the end of the window, so they are of any type with a decidable
order and a function that adds milliseconds.
-/

namespace Bhf.RuntimeCollector

open List

inductive EventPhase
  | beginning | event | ending
  deriving DecidableEq

inductive EventKind
  | processCreate | shellExecute | fileCreate | fileOpen | fileWrite | fileRename | fileDelete
  | moduleLoad | network | registry
  | unknown (raw : String)
  deriving DecidableEq

structure ProcessIdentity where
  pid : UInt32
  parent : Option UInt32
  ancestor : Option UInt32
  deriving DecidableEq

structure CollectorEvent (Time : Type) where
  phase : EventPhase
  process : ProcessIdentity
  kind : EventKind
  ts : Option Time
  deriving DecidableEq

structure AttributedSession (Time : Type) where
  rootPid : Option UInt32
  treePids : Finset UInt32
  attributed : List (CollectorEvent Time)
  droppedOutOfWindow : ℕ

variable {Time : Type}

def rootPid (events : List (CollectorEvent Time)) : Option UInt32 :=
  ((events.find? (·.phase = .beginning)).or
    ((events.find? (·.kind = .processCreate)).or events.head?)).map (·.process.pid)

def endTs (events : List (CollectorEvent Time)) : Option Time :=
  (events.reverse.find? (·.phase = .ending)).bind (·.ts)

section Loop

variable (root : Option UInt32) (tree : Finset UInt32) (ev : CollectorEvent Time)

def belongs : Bool :=
  root = some ev.process.pid || (ev.process.ancestor = root && root.isSome) ||
    (ev.process.parent.map (fun p ↦ decide (p ∈ tree))).getD false

variable [LE Time] [DecidableLE Time] (cutoff : Option Time)

def inWindow : Bool :=
  match ev.ts, cutoff with
  | some ts, some cut => ts ≤ cut
  | _, _ => true

/-- One round of the loop. -/
def attributeEvent (session : AttributedSession Time) (ev : CollectorEvent Time) :
    AttributedSession Time :=
  if belongs root session.treePids ev then
    let session := { session with treePids := insert ev.process.pid session.treePids }
    if inWindow ev cutoff then { session with attributed := session.attributed ++ [ev] }
    else { session with droppedOutOfWindow := session.droppedOutOfWindow + 1 }
  else session

def attributeSession (addMillis : Time → ℕ → Time) (events : List (CollectorEvent Time))
    (windowMs : ℕ) : AttributedSession Time :=
  events.foldl (attributeEvent (rootPid events) ((endTs events).map (addMillis · windowMs)))
    ⟨rootPid events, (rootPid events).toFinset, [], 0⟩

end Loop

/-! ### The descendants of the root -/

section Descendants

variable (root : Option UInt32)

/-- The process of the event joins a tree: its parent is there, or its ancestor is the root. -/
def Joins (tree : Finset UInt32) (ev : CollectorEvent Time) : Prop :=
  (∃ p ∈ ev.process.parent, p ∈ tree) ∨ ∃ r ∈ root, ev.process.ancestor = some r

instance (tree : Finset UInt32) (ev : CollectorEvent Time) : Decidable (Joins root tree ev) :=
  inferInstanceAs (Decidable (_ ∨ _))

def grow (tree : Finset UInt32) (ev : CollectorEvent Time) : Finset UInt32 :=
  if Joins root tree ev then insert ev.process.pid tree else tree

def descendants (events : List (CollectorEvent Time)) : Finset UInt32 :=
  events.foldl (grow root) root.toFinset

/-- The events that satisfy `keep` at the tree before them. -/
def select (keep : Finset UInt32 → CollectorEvent Time → Bool) :
    Finset UInt32 → List (CollectorEvent Time) → List (CollectorEvent Time)
  | _, [] => []
  | tree, ev :: events =>
    if keep tree ev then ev :: select keep (grow root tree ev) events
    else select keep (grow root tree ev) events

/-- The events whose process is in the tree by then. -/
def ofDescendants (events : List (CollectorEvent Time)) : List (CollectorEvent Time) :=
  select root (fun tree ev ↦ decide (ev.process.pid ∈ grow root tree ev)) root.toFinset events

/-- Every event of a process that joined before is the root's own or makes its process join. -/
def Announced : Finset UInt32 → List (CollectorEvent Time) → Prop
  | _, [] => True
  | tree, ev :: events =>
    (ev.process.pid ∈ tree → root = some ev.process.pid ∨ Joins root tree ev) ∧
      Announced (grow root tree ev) events

end Descendants

variable {root : Option UInt32} {tree : Finset UInt32} {ev : CollectorEvent Time}

theorem belongs_iff :
    belongs root tree ev = true ↔ root = some ev.process.pid ∨ Joins root tree ev := by
  unfold belongs Joins
  rcases root with - | r <;> rcases ev.process.parent with - | p <;> simp [or_comm, or_left_comm]

theorem subset_grow : tree ⊆ grow root tree ev := by
  unfold grow
  split
  · exact Finset.subset_insert _ _
  · exact subset_rfl

/-- The loop's insertion is the growth of the tree: the root is there from the start. -/
theorem grow_eq (hroot : root.toFinset ⊆ tree) (h : belongs root tree ev = true) :
    grow root tree ev = insert ev.process.pid tree := by
  unfold grow
  split
  · rfl
  · next hjoins =>
    have heq := (belongs_iff.1 h).resolve_right hjoins
    exact (Finset.insert_eq_of_mem (hroot (by simp [heq]))).symm

theorem grow_eq_self (h : belongs root tree ev = false) : grow root tree ev = tree :=
  if_neg fun hjoins ↦ by simp [belongs_iff.2 (.inr hjoins)] at h

/-- The events that belong are among those of the tree, and are all of them if every event
announces its process. -/
theorem select_belongs : ∀ (events : List (CollectorEvent Time)) (tree : Finset UInt32),
    root.toFinset ⊆ tree →
    let belonging := select root (belongs root) tree events
    let ofTree := select root (fun tree ev ↦ ev.process.pid ∈ grow root tree ev) tree events
    belonging <+ ofTree ∧ (belonging.length = ofTree.length ↔ Announced root tree events)
  | [], _, _ => by simp [select, Announced]
  | ev :: events, tree, hroot => by
    obtain ⟨hsub, hiff⟩ := select_belongs events (grow root tree ev) (hroot.trans subset_grow)
    have hle := hsub.length_le
    simp only [select, Announced, ← belongs_iff]
    cases hb : belongs root tree ev with
    | true =>
      have hmem : ev.process.pid ∈ grow root tree ev := by simp [grow_eq hroot hb]
      simpa [hmem] using ⟨hsub, hiff⟩
    | false =>
      have hgrow : ev.process.pid ∈ grow root tree ev ↔ ev.process.pid ∈ tree := by
        rw [grow_eq_self hb]
      by_cases hmem : ev.process.pid ∈ tree
      · -- an event that is passed over is missed in the count
        simpa [hgrow, hmem] using ⟨hsub.cons ev, (Nat.lt_succ_of_le hle).ne⟩
      · simpa [hgrow, hmem] using ⟨hsub, hiff⟩

variable [LE Time] [DecidableLE Time] {cutoff : Option Time}

/-- What the loop has when it is through: its ids are the grown tree, and it has sorted the events
that belong by the window. -/
theorem foldl_attributeEvent : ∀ (events : List (CollectorEvent Time)) (tree : Finset UInt32),
    root.toFinset ⊆ tree → ∀ (attributed : List (CollectorEvent Time)) (dropped : ℕ),
    events.foldl (attributeEvent root cutoff) ⟨root, tree, attributed, dropped⟩ =
      ⟨root, events.foldl (grow root) tree,
        attributed ++ (select root (belongs root) tree events).filter (inWindow · cutoff),
        dropped + ((select root (belongs root) tree events).filter (!inWindow · cutoff)).length⟩
  | [], _, _, _, _ => by simp [select]
  | ev :: events, tree, hroot, attributed, dropped => by
    have ih := foldl_attributeEvent events (grow root tree ev) (hroot.trans subset_grow)
    rw [foldl_cons, foldl_cons, select, attributeEvent]
    cases hb : belongs root tree ev with
    | false =>
      rw [grow_eq_self hb] at ih ⊢
      simpa using ih attributed dropped
    | true =>
      rw [← grow_eq hroot hb]
      cases hw : inWindow ev cutoff with
      | false => simp [ih, hw, add_assoc, add_comm 1]
      | true => simp [ih, hw]

variable (addMillis : Time → ℕ → Time) (events : List (CollectorEvent Time)) (windowMs : ℕ)

/-- The session holds, of the events of the descendants, those within the window in their order and
the number of the others; its ids are the descendants; and an event is out of the window only if it
and the end of the session have a time. -/
def Exact : Prop :=
  let root := rootPid events
  let cutoff := (endTs events).map (addMillis · windowMs)
  let session := attributeSession addMillis events windowMs
  session.attributed = (ofDescendants root events).filter (inWindow · cutoff) ∧
    session.droppedOutOfWindow = ((ofDescendants root events).filter (!inWindow · cutoff)).length ∧
    session.treePids = descendants root events ∧
    ∀ ev, ev.ts = none ∨ endTs events = none → inWindow ev cutoff = true

theorem exact_iff_announced :
    Exact addMillis events windowMs ↔
      Announced (rootPid events) (rootPid events).toFinset events := by
  obtain ⟨hsub, hiff⟩ := select_belongs events (rootPid events).toFinset subset_rfl
  rw [Exact, attributeSession, foldl_attributeEvent _ _ subset_rfl, ← hiff]
  simp only [nil_append, zero_add]
  constructor
  · rintro ⟨hkept, hdropped, -⟩
    rw [← (filter_append_perm (inWindow · _) _).length_eq, length_append, hkept, hdropped,
      ← length_append, (filter_append_perm (inWindow · _) _).length_eq]
    rfl
  · intro h
    rw [hsub.eq_of_length h]
    refine ⟨rfl, rfl, rfl, ?_⟩
    rintro ev (hnone | hnone) <;> simp [inWindow, hnone]

/-- The write of a child that only its creation ties to the root is passed over. -/
theorem not_exact_write : ¬ Exact (fun ts ms : ℕ ↦ ts + ms)
    [⟨.beginning, ⟨1000, none, none⟩, .processCreate, some 0⟩,
      ⟨.event, ⟨1001, some 1000, none⟩, .processCreate, some 1⟩,
      ⟨.event, ⟨1001, none, none⟩, .fileWrite, some 2⟩] 250 :=
  fun h ↦ absurd h.1 (by decide)

end Bhf.RuntimeCollector
