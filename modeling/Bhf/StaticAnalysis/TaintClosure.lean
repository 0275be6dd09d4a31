import Mathlib.Algebra.Order.BigOperators.Group.List
import Bhf.StaticAnalysis.Taint
import Mathlib.Algebra.Ring.Nat

/-!
# What a taint scan without gaps has covered

The worklist always ends: a round either uses up one of the 48 states of a function or shortens the
queue without adding to it (`lowers_next`). So `scan` runs it to the end.

If no gap says that a function was truncated, every state that was queued has been analysed. What is
queued are the seeds and the targets of the calls that are **followed**. A call is not followed in
two cases, and neither leaves a gap: when the trace has 24 steps, and when a state with the same
signature text has been queued before. The scan is complete if in both cases nothing is lost: sets
of parameters that occur have different signatures, and the target of a call beyond the limit has
been queued on the way to another one.
-/

namespace Bhf.StaticAnalysis

open List Option StaticAnalysis Work

variable {help : LineHelpers} {language : String} {index : FunctionIndex}

/-! ### What following lines can do -/

/-- `w'` is `w` with more states queued and more reports. -/
structure Work.Extends (w w' : Work) : Prop where
  /-- The states seen stay. -/
  fnStates : w'.fnStates = w.fnStates
  /-- So do the limits that were met. -/
  truncated : w'.truncated = w.truncated
  /-- And the functions analysed. -/
  analysed : w'.analysed = w.analysed
  /-- No queued state is lost. -/
  queued : ∀ s ∈ w.queued, s ∈ w'.queued
  /-- No finding is lost. -/
  findings : ∀ f ∈ w.findings, f ∈ w'.findings
  /-- No gap is lost. -/
  gaps : ∀ g ∈ w.gaps, g ∈ w'.gaps

theorem Work.Extends.refl (w : Work) : w.Extends w :=
  ⟨rfl, rfl, rfl, fun _ h ↦ h, fun _ h ↦ h, fun _ h ↦ h⟩

theorem Work.Extends.trans {w₁ w₂ w₃ : Work} (h : w₁.Extends w₂) (h' : w₂.Extends w₃) :
    w₁.Extends w₃ where
  fnStates := h'.fnStates.trans h.fnStates
  truncated := h'.truncated.trans h.truncated
  analysed := h'.analysed.trans h.analysed
  queued s hs := h'.queued s (h.queued s hs)
  findings f hf := h'.findings f (h.findings f hf)
  gaps g hg := h'.gaps g (h.gaps g hg)

theorem extends_enqueue (w : Work) (s : TaintState) (trace : List TraceStep) :
    w.Extends (w.enqueue s trace) := by
  rw [enqueue]
  split
  · exact Work.Extends.refl w
  · exact ⟨rfl, rfl, rfl, fun _ h ↦ mem_cons_of_mem s h, fun _ h ↦ h, fun _ h ↦ h⟩

theorem extends_foldl_followEdge (callStep : String → TraceStep) (trace : List TraceStep)
    (w : Work) (es : List CallEdge) : w.Extends (es.foldl (followEdge callStep trace) w) := by
  induction es generalizing w with
  | nil => exact Work.Extends.refl w
  | cons e es ih =>
    refine Work.Extends.trans ?_ (ih _)
    rw [followEdge]
    split
    · exact Work.Extends.refl w
    · exact extends_enqueue ..

theorem extends_reportSink (trace : List TraceStep) (o : LineOutcome) (w : Work) :
    w.Extends (reportSink trace o w) := by
  rw [reportSink]
  split
  · exact Work.Extends.refl w
  · exact ⟨rfl, rfl, rfl, fun _ h ↦ h, fun _ h ↦ mem_append_left _ h, fun _ h ↦ h⟩

theorem extends_gaps (w : Work) (gaps : List AnalysisGap) :
    w.Extends { w with gaps := w.gaps ++ gaps } :=
  ⟨rfl, rfl, rfl, fun _ h ↦ h, fun _ h ↦ h, fun _ h ↦ mem_append_left _ h⟩

/-- The work after one line. -/
def followLine (trace : List TraceStep) (w : Work) (o : LineOutcome) : Work :=
  let w := o.edges.foldl (followEdge o.callStep trace) (reportSink trace o w)
  { w with gaps := w.gaps ++ o.unresolved }

theorem followLines_cons (trace : List TraceStep) (w : Work) (o : LineOutcome)
    (os : List LineOutcome) :
    followLines trace w (o :: os) =
      followLines (trace ++ o.steps) (followLine (trace ++ o.steps) w o) os :=
  rfl

theorem extends_followLines (trace : List TraceStep) (w : Work) (os : List LineOutcome) :
    w.Extends (followLines trace w os) := by
  induction os generalizing trace w with
  | nil => exact Work.Extends.refl w
  | cons o os ih =>
    rw [followLines_cons]
    refine Work.Extends.trans ?_ (ih ..)
    exact (extends_reportSink ..).trans ((extends_foldl_followEdge ..).trans (extends_gaps ..))

/-! ### The worklist ends -/

/-- The states that may still be analysed, and the length of the queue. -/
def remaining (index : FunctionIndex) (w : Work) : ℕ × ℕ :=
  ((index.models.map fun m ↦ maxFnTaintStates - w.fnStates m.1).sum, w.queue.length)

variable {key : FunctionKey} {tainted : Finset String} {e : CallEdge} {s : TaintState}
  {os : List LineOutcome} {w' : Work} {trace : List TraceStep} {function : FunctionModel}
  {o : LineOutcome} {n : ℕ} {es : List CallEdge}
  {queue : List (FunctionKey × List TraceStep × Finset String)}

theorem mem_models_of_get (h : index.get key = some function) : (key, function) ∈ index.models := by
  obtain ⟨l, r, hsplit, -⟩ := lookup_eq_some_iff.1 h
  rw [hsplit]
  simp

theorem truncate_fnStates (w : Work) (key : FunctionKey) :
    (w.truncate help index key).fnStates = w.fnStates := by
  rw [truncate]
  split <;> rfl

theorem truncate_queue (w : Work) (key : FunctionKey) :
    (w.truncate help index key).queue = w.queue := by
  rw [truncate]
  split <;> rfl

/-- Every round uses up a state of a function or only shortens the queue. -/
theorem lowers_next : Lowers (next help language index) (remaining index) := by
  intro w w' h
  rw [next] at h
  split at h
  · simp at h
  next key trace tainted queue hqueue =>
  set counts := Function.update w.fnStates key (w.fnStates key + 1) with hcounts
  have hother {m : FunctionKey × FunctionModel} (hm : m.1 ≠ key) :
      counts m.1 = w.fnStates m.1 := Function.update_of_ne hm _ _
  have hown : counts key = w.fnStates key + 1 := Function.update_self ..
  -- A round that analyses nothing.
  have shorter {w'' : Work} (hstates : w''.fnStates = counts) (hrest : w''.queue = queue)
      (hunused : ∀ m ∈ index.models, m.1 = key → maxFnTaintStates ≤ w.fnStates key) :
      Prod.Lex (· < ·) (· < ·) (remaining index w'') (remaining index w) := by
    have hsame : (index.models.map fun m ↦ maxFnTaintStates - counts m.1) =
        index.models.map fun m ↦ maxFnTaintStates - w.fnStates m.1 := by
      refine map_congr_left fun m hm ↦ ?_
      by_cases hkey : m.1 = key
      · have := hunused m hm hkey
        rw [hkey, hown]
        omega
      · rw [hother hkey]
    rw [remaining, remaining, hstates, hsame, hrest, hqueue]
    exact Prod.Lex.right _ (Nat.lt_succ_self _)
  split at h
  · next hcap =>
    obtain ⟨⟩ := h
    exact shorter (truncate_fnStates ..) (truncate_queue ..) fun _ _ _ ↦ Nat.le_of_lt_succ hcap
  next hcap =>
  split at h
  · next hnone =>
    obtain ⟨⟩ := h
    refine shorter rfl rfl fun m hm hkey ↦ ?_
    simpa [hkey] using lookup_eq_none_iff.1 hnone m hm
  · next function hfunction =>
    obtain ⟨⟩ := h
    -- The function has a model and had states left, so its term of the sum drops.
    refine Prod.Lex.left _ _ ?_
    rw [(extends_followLines ..).fnStates]
    show (index.models.map fun m ↦ maxFnTaintStates - counts m.1).sum < _
    refine sum_lt_sum _ _ (fun m _ ↦ ?_) ⟨(key, function), mem_models_of_get hfunction, ?_⟩
    · by_cases hkey : m.1 = key
      · rw [hkey, hown]
        omega
      · rw [hother hkey]
    · dsimp only
      omega

/-- The worklist run to its end. -/
def scan (help : LineHelpers) (language : String) (index : FunctionIndex) : Work :=
  exhaust (next help language index) (remaining index) lowers_next (start help language index)

/-! ### Calls and sinks of a state -/

section State

variable (help : LineHelpers) (language : String) (index : FunctionIndex)

/-- The outcomes of the lines of a state. -/
def outcomesOf (s : TaintState) : List LineOutcome :=
  match index.get s.1 with
  | none => []
  | some function => outcomes help language index s.1 function s.2

/-- The calls that pass taint in a state. -/
def edgesOf (s : TaintState) : List CallEdge :=
  (outcomesOf help language index s).flatMap LineOutcome.edges

/-- The sinks confirmed in a state. -/
def sinksOf (s : TaintState) : List SinkHit :=
  (outcomesOf help language index s).filterMap LineOutcome.hit

/-- The states reached from the seeds by any number of calls. -/
inductive Reachable : TaintState → Prop
  | seed {s : TaintState} : s ∈ seeds help language index → Reachable s
  | edge {s : TaintState} {e : CallEdge} :
      Reachable s → e ∈ edgesOf help language index s → Reachable e.target

/-- Different parameter sets of a function that occur have different signatures. -/
def SignaturesApart : Prop :=
  ∀ key tainted tainted', Reachable help language index (key, tainted) →
    Reachable help language index (key, tainted') →
      signature tainted = signature tainted' → tainted = tainted'

end State

/-- The calls of some outcomes with the length of the trace at each, from length `n` on. -/
def edgesAt : ℕ → List LineOutcome → List (ℕ × CallEdge)
  | _, [] => []
  | n, o :: os => o.edges.map (fun e ↦ (n + o.steps.length, e)) ++ edgesAt (n + o.steps.length) os

/-- **Nothing is lost at the trace limit** in the round that follows `w`: a call found with a trace
at the limit leads to a state that has been queued before, or that is also called with a shorter
trace in the same round. -/
def CutCovered (help : LineHelpers) (language : String) (index : FunctionIndex) (w : Work) : Prop :=
  ∀ key trace tainted queue, w.queue = (key, trace, tainted) :: queue →
    ∀ n e, (n, e) ∈ edgesAt trace.length (outcomesOf help language index (key, tainted)) →
      maxTraceDepth ≤ n → e.target ∈ w.queued ∨
        ∃ n' e', (n', e') ∈ edgesAt trace.length (outcomesOf help language index (key, tainted)) ∧
          n' < maxTraceDepth ∧ e'.target = e.target

/-! ### Every queued state is a reachable state of the index -/

theorem get_isSome_of_mem_localCallEdges {line : String} {current : FunctionKey}
    {cppObjects : Objects}
    (he : e ∈ localCallEdges help language index line current tainted cppObjects) :
    (index.get e.calleeKey).isSome := by
  obtain ⟨⟨call, calleeKey⟩, -, he⟩ := mem_filterMap.1 he
  dsimp only at he
  split at he
  · simp at he
  · next model hmodel =>
    split at he
    · simp at he
    · obtain ⟨⟩ := he
      simp [hmodel]

theorem get_isSome_of_mem_outcomesFrom {loopCarried nonReturning : Finset String} {a : Active}
    {lines : List BodyLine} (ho : o ∈ outcomesFrom help language index key function loopCarried
      nonReturning a lines) (he : e ∈ o.edges) :
    (index.get e.calleeKey).isSome := by
  induction lines generalizing a with
  | nil => simp [outcomesFrom] at ho
  | cons line lines ih =>
    rw [outcomesFrom, mem_cons] at ho
    rcases ho with rfl | ho
    · exact get_isSome_of_mem_localCallEdges he
    · exact ih ho

theorem Reachable.get_isSome (h : Reachable help language index s) : (index.get s.1).isSome := by
  cases h with
  | seed hs =>
    obtain ⟨⟨key, function⟩, hm, hseed⟩ := mem_filterMap.1 hs
    obtain ⟨tainted, -, rfl⟩ := map_eq_some_iff.1 hseed
    exact lookup_isSome_iff.2 ⟨(key, function), hm, by simp⟩
  | @edge s e _ he =>
    obtain ⟨o, ho, he⟩ := mem_flatMap.1 he
    rw [outcomesOf] at ho
    split at ho
    · simp at ho
    · exact get_isSome_of_mem_outcomesFrom ho he

theorem mem_edgesAt (he : e ∈ os.flatMap LineOutcome.edges) : ∃ n', (n', e) ∈ edgesAt n os := by
  induction os generalizing n with
  | nil => simp at he
  | cons o os ih =>
    rw [flatMap_cons, mem_append] at he
    rcases he with he | he
    · exact ⟨_, mem_append_left _ (mem_map_of_mem he)⟩
    · obtain ⟨n', hn'⟩ := ih (n := n + o.steps.length) he
      exact ⟨n', mem_append_right _ hn'⟩

/-! ### The bookkeeping of the worklist -/

/-- A gap says that a function was truncated. -/
def Work.Truncated (w : Work) : Prop :=
  ∃ g ∈ w.gaps, g.reason = "taint_analysis_truncated_fanout"

/-- What the worklist knows of the states it has queued. -/
structure Consistent (help : LineHelpers) (language : String) (index : FunctionIndex) (w : Work) :
    Prop where
  reachable : ∀ s ∈ w.queued, Reachable help language index s
  signed : ∀ key sig, (key, sig) ∈ w.enqueued → ∃ tainted, (key, tainted) ∈ w.queued ∧
    signature tainted = sig
  listed : ∀ key trace tainted, (key, trace, tainted) ∈ w.queue → (key, tainted) ∈ w.queued
  waiting : ∀ s ∈ w.queued, s ∈ w.analysed ∨ (∃ trace, (s.1, trace, s.2) ∈ w.queue) ∨ w.Truncated
  truncated : w.truncated ≠ [] → w.Truncated

theorem Work.Truncated.mono {w : Work} (h : ∀ g ∈ w.gaps, g ∈ w'.gaps) (hw : w.Truncated) :
    w'.Truncated := by
  obtain ⟨g, hg, hreason⟩ := hw
  exact ⟨g, h g hg, hreason⟩

variable {w : Work}

section

variable (hw : Consistent help language index w)

include hw

theorem Consistent.enqueue (hs : Reachable help language index s) (trace : List TraceStep) :
    Consistent help language index (w.enqueue s trace) := by
  rw [Work.enqueue]
  split
  · exact hw
  refine ⟨?_, ?_, ?_, ?_, hw.truncated⟩
  · exact forall_mem_cons.2 ⟨hs, hw.reachable⟩
  · intro key sig hmem
    rcases mem_cons.1 hmem with heq | hmem
    · obtain ⟨⟩ := heq
      exact ⟨s.2, mem_cons_self, rfl⟩
    · obtain ⟨tainted, hqueued, hsig⟩ := hw.signed key sig hmem
      exact ⟨tainted, mem_cons_of_mem s hqueued, hsig⟩
  · intro key trace' tainted hmem
    rcases mem_append.1 hmem with hmem | hmem
    · exact mem_cons_of_mem s (hw.listed key trace' tainted hmem)
    · obtain ⟨rfl, rfl, rfl⟩ : key = s.1 ∧ trace' = trace ∧ tainted = s.2 := by simpa using hmem
      exact mem_cons_self
  · intro s' hs'
    rcases mem_cons.1 hs' with rfl | hs'
    · exact .inr (.inl ⟨trace, mem_append_right _ mem_cons_self⟩)
    · refine (hw.waiting s' hs').imp_right (.imp_left ?_)
      exact fun ⟨trace', h⟩ ↦ ⟨trace', mem_append_left _ h⟩

/-- A state whose signature has been queued has been queued itself. -/
theorem Consistent.mem_queued_enqueue
    (hsig : SignaturesApart help language index) (hs : Reachable help language index s)
    (trace : List TraceStep) : s ∈ (w.enqueue s trace).queued := by
  rw [Work.enqueue]
  split
  · next hmem =>
    obtain ⟨tainted, hqueued, heq⟩ := hw.signed _ _ hmem
    obtain rfl := hsig s.1 tainted s.2 (hw.reachable _ hqueued) hs heq
    exact hqueued
  · exact mem_cons_self

theorem Consistent.reportSink (trace : List TraceStep)
    (o : LineOutcome) : Consistent help language index (reportSink trace o w) := by
  rw [StaticAnalysis.reportSink]
  split
  · exact hw
  · exact ⟨hw.reachable, hw.signed, hw.listed, hw.waiting, hw.truncated⟩

theorem Consistent.gaps (gaps : List AnalysisGap) :
    Consistent help language index { w with gaps := w.gaps ++ gaps } := by
  have hmono (h : w.Truncated) : Work.Truncated { w with gaps := w.gaps ++ gaps } :=
    h.mono fun g hg ↦ mem_append_left _ hg
  refine ⟨hw.reachable, hw.signed, hw.listed, fun s hs ↦ ?_, fun h ↦ hmono (hw.truncated h)⟩
  exact (hw.waiting s hs).imp_right (.imp_right hmono)

/-- Following the calls of a line queues their targets if the trace is short. -/
theorem Consistent.foldl_followEdge (hsig : SignaturesApart help language index)
    (hes : ∀ e ∈ es, Reachable help language index e.target) (callStep : String → TraceStep)
    (trace : List TraceStep) :
    Consistent help language index (es.foldl (followEdge callStep trace) w) ∧
      (trace.length < maxTraceDepth →
        ∀ e ∈ es, e.target ∈ (es.foldl (followEdge callStep trace) w).queued) := by
  induction es generalizing w with
  | nil => exact ⟨hw, by simp⟩
  | cons e es ih =>
    obtain ⟨he, hes⟩ := forall_mem_cons.1 hes
    have hstep : Consistent help language index (followEdge callStep trace w e) := by
      rw [followEdge]
      split
      · exact hw
      · exact hw.enqueue he _
    obtain ⟨hconsistent, hqueued⟩ := ih hstep hes
    refine ⟨hconsistent, fun hshort ↦ forall_mem_cons.2 ⟨?_, hqueued hshort⟩⟩
    refine (extends_foldl_followEdge callStep trace _ es).queued _ ?_
    rw [followEdge, if_neg (not_le.2 hshort)]
    exact hw.mem_queued_enqueue hsig he _

end

/-- **What the lines of a function leave behind**: the targets of calls with a short trace are
queued and the sinks are reported. -/
theorem Consistent.followLines (hw : Consistent help language index w)
    (hsig : SignaturesApart help language index)
    (hos : ∀ e ∈ os.flatMap LineOutcome.edges, Reachable help language index e.target)
    (trace : List TraceStep) :
    Consistent help language index (followLines trace w os) ∧
      (∀ n e, (n, e) ∈ edgesAt trace.length os → n < maxTraceDepth →
        e.target ∈ (followLines trace w os).queued) ∧
      ∀ hit ∈ os.filterMap LineOutcome.hit,
        ∃ f ∈ (followLines trace w os).findings, f.hit = hit := by
  induction os generalizing w trace with
  | nil => exact ⟨hw, by simp [edgesAt], by simp⟩
  | cons o os ih =>
    rw [flatMap_cons] at hos
    have hline := (hw.reportSink (trace ++ o.steps) o).foldl_followEdge hsig
      (fun e he ↦ hos e (mem_append_left _ he)) o.callStep (trace ++ o.steps)
    rw [followLines_cons]
    obtain ⟨hconsistent, hedges, hhits⟩ := ih (hline.1.gaps o.unresolved)
      (fun e he ↦ hos e (mem_append_right _ he)) (trace ++ o.steps)
    have hextends := extends_followLines (trace ++ o.steps) (followLine (trace ++ o.steps) w o) os
    refine ⟨hconsistent, fun n e hmem hn ↦ ?_, fun hit hmem ↦ ?_⟩
    · rw [edgesAt, mem_append, ← length_append] at hmem
      rcases hmem with hmem | hmem
      · obtain ⟨e', he', heq⟩ := mem_map.1 hmem
        obtain ⟨rfl, rfl⟩ := Prod.mk.inj heq
        exact hextends.queued _ (hline.2 hn e' he')
      · exact hedges n e hmem hn
    · rw [filterMap_cons] at hmem
      have hrest : hit ∈ os.filterMap LineOutcome.hit → _ := hhits hit
      cases hhit : o.hit with
      | none => exact hrest (by simpa [hhit] using hmem)
      | some hit' =>
        rcases mem_cons.1 (by simpa [hhit] using hmem :
          hit ∈ hit' :: os.filterMap LineOutcome.hit) with rfl | hmem
        · obtain ⟨f, hf, hfhit⟩ : ∃ f ∈ (StaticAnalysis.reportSink (trace ++ o.steps) o w).findings,
              f.hit = hit := by
            rw [StaticAnalysis.reportSink, hhit]
            exact ⟨_, mem_append_right _ mem_cons_self, rfl⟩
          refine ⟨f, hextends.findings f ?_, hfhit⟩
          exact (extends_gaps _ o.unresolved).findings f
            ((extends_foldl_followEdge ..).findings f hf)
        · exact hrest hmem

/-! ### Rounds -/

/-- The bookkeeping is right, and the calls and sinks of what has been analysed are dealt with. -/
structure Covered (help : LineHelpers) (language : String) (index : FunctionIndex) (w : Work) :
    Prop where
  consistent : Consistent help language index w
  closed : ∀ s ∈ w.analysed, ∀ e ∈ edgesOf help language index s, e.target ∈ w.queued
  reported : ∀ s ∈ w.analysed, ∀ hit ∈ sinksOf help language index s,
    ∃ f ∈ w.findings, f.hit = hit

/-- The function has used up its states: what was covered stays covered. -/
theorem Covered.truncate (hw : Covered help language index w)
    (hqueue : w.queue = (key, trace, tainted) :: queue) (hkey : (index.get key).isSome) :
    Covered help language index ((w.pop key queue).truncate help index key) := by
  have htruncated : ((w.pop key queue).truncate help index key).Truncated := by
    rw [Work.truncate]
    split
    · next hmem => exact hw.consistent.truncated (ne_nil_of_mem hmem)
    · obtain ⟨function, hfunction⟩ := isSome_iff_exists.1 hkey
      refine ⟨truncationGap help function, ?_, rfl⟩
      simp [hfunction]
  obtain ⟨hanalysed, hqueued, henqueued, hfindings⟩ :
      ((w.pop key queue).truncate help index key).analysed = w.analysed ∧
      ((w.pop key queue).truncate help index key).queued = w.queued ∧
      ((w.pop key queue).truncate help index key).enqueued = w.enqueued ∧
      ((w.pop key queue).truncate help index key).findings = w.findings := by
    rw [Work.truncate]
    split <;> exact ⟨rfl, rfl, rfl, rfl⟩
  refine ⟨⟨?_, ?_, ?_, fun s _ ↦ .inr (.inr htruncated), fun _ ↦ htruncated⟩, ?_, ?_⟩
  · rw [hqueued]
    exact hw.consistent.reachable
  · rw [henqueued, hqueued]
    exact hw.consistent.signed
  · rw [truncate_queue, hqueued]
    intro key' trace' tainted' hmem
    exact hw.consistent.listed _ _ _ (hqueue ▸ mem_cons_of_mem _ hmem)
  · rw [hanalysed, hqueued]
    exact hw.closed
  · rw [hanalysed, hfindings]
    exact hw.reported

/-- The state at the head of the queue moves to the analysed ones. -/
theorem Consistent.analyse (hw : Consistent help language index w)
    (hqueue : w.queue = (key, trace, tainted) :: queue) :
    Consistent help language index ((w.pop key queue).note (key, tainted)) := by
  refine ⟨hw.reachable, hw.signed, fun key' trace' tainted' hmem ↦ ?_, fun s hs ↦ ?_, hw.truncated⟩
  · exact hw.listed _ _ _ (hqueue ▸ mem_cons_of_mem _ hmem)
  · rcases hw.waiting s hs with hs | ⟨trace', hs⟩ | hs
    · exact .inl (mem_cons_of_mem _ hs)
    · rw [hqueue, mem_cons] at hs
      rcases hs with hs | hs
      · obtain ⟨hkey, -, htainted⟩ : s.1 = key ∧ trace' = trace ∧ s.2 = tainted := by simpa using hs
        exact .inl (mem_cons.2 (.inl (Prod.ext hkey htainted)))
      · exact .inr (.inl ⟨trace', hs⟩)
    · exact .inr (.inr hs)

/-- **One round keeps everything covered** if nothing is lost at the trace limit. -/
theorem Covered.next (hw : Covered help language index w)
    (hsig : SignaturesApart help language index) (hcut : CutCovered help language index w)
    (h : next help language index w = some w') : Covered help language index w' := by
  rw [StaticAnalysis.next] at h
  split at h
  · simp at h
  next key trace tainted queue hqueue =>
  have hreachable := hw.consistent.reachable _
    (hw.consistent.listed key trace tainted (hqueue ▸ mem_cons_self))
  obtain ⟨function, hfunction⟩ := isSome_iff_exists.1 hreachable.get_isSome
  split at h
  · obtain ⟨⟩ := h
    exact hw.truncate hqueue hreachable.get_isSome
  rw [hfunction] at h
  obtain ⟨⟩ := h
  have houtcomes : outcomesOf help language index (key, tainted) =
      outcomes help language index key function tainted := by rw [outcomesOf, hfunction]
  rw [← houtcomes]
  obtain ⟨hconsistent, hedges, hhits⟩ := (hw.consistent.analyse hqueue).followLines hsig
    (fun e he ↦ .edge hreachable he) trace
  have hextends := extends_followLines trace ((w.pop key queue).note (key, tainted))
    (outcomesOf help language index (key, tainted))
  refine ⟨hconsistent, ?_, ?_⟩
  · rw [hextends.analysed]
    refine forall_mem_cons.2 ⟨fun e he ↦ ?_, fun s hs e he ↦
      hextends.queued _ (hw.closed s hs e he)⟩
    obtain ⟨n, hn⟩ := mem_edgesAt (n := trace.length) he
    -- A call that is dropped for its depth leads to what is queued anyway: that is the hypothesis.
    by_cases hshort : n < maxTraceDepth
    · exact hedges n e hn hshort
    · rcases hcut key trace tainted queue hqueue n e hn (not_lt.1 hshort) with
        hbefore | ⟨n', e', hn', hshort', htarget⟩
      · exact hextends.queued _ hbefore
      · rw [← htarget]
        exact hedges n' e' hn' hshort'
  · rw [hextends.analysed]
    refine forall_mem_cons.2 ⟨hhits, fun s hs hit hmem ↦ ?_⟩
    obtain ⟨f, hf, hfhit⟩ := hw.reported s hs hit hmem
    exact ⟨f, hextends.findings f hf, hfhit⟩

/-! ### Traces that never reach the limit -/

/-- A chain of calls leads from a seed to a state, with a trace of length `n`. -/
inductive CallChain (help : LineHelpers) (language : String) (index : FunctionIndex) :
    ℕ → TaintState → Prop
  | seed {s : TaintState} : s ∈ seeds help language index → CallChain help language index 0 s
  | call {n m : ℕ} {s : TaintState} {e : CallEdge} : CallChain help language index n s →
      (m, e) ∈ edgesAt n (outcomesOf help language index s) →
        CallChain help language index (m + 1) e.target

/-- What waits in the queue is reached by a chain of calls as long as its trace. -/
def Chained (help : LineHelpers) (language : String) (index : FunctionIndex) (w : Work) : Prop :=
  ∀ key trace tainted, (key, trace, tainted) ∈ w.queue →
    CallChain help language index trace.length (key, tainted)

theorem Chained.enqueue (hw : Chained help language index w)
    (hs : CallChain help language index trace.length s) :
    Chained help language index (w.enqueue s trace) := by
  rw [Work.enqueue]
  split
  · exact hw
  intro key trace' tainted hmem
  rcases mem_append.1 hmem with hmem | hmem
  · exact hw key trace' tainted hmem
  · obtain ⟨rfl, rfl, rfl⟩ : key = s.1 ∧ trace' = trace ∧ tainted = s.2 := by simpa using hmem
    exact hs

theorem Chained.foldl_followEdge (hw : Chained help language index w)
    (hes : ∀ e ∈ es, CallChain help language index (trace.length + 1) e.target)
    (callStep : String → TraceStep) :
    Chained help language index (es.foldl (followEdge callStep trace) w) := by
  refine foldlRecOn es _ hw fun w hw e he ↦ ?_
  rw [followEdge]
  split
  · exact hw
  · exact hw.enqueue (by simpa using hes e he)

theorem Chained.followLines (hw : Chained help language index w)
    (hos : ∀ n e, (n, e) ∈ edgesAt trace.length os →
      CallChain help language index (n + 1) e.target) :
    Chained help language index (followLines trace w os) := by
  induction os generalizing w trace with
  | nil => exact hw
  | cons o os ih =>
    rw [edgesAt, ← length_append] at hos
    have hreport : Chained help language index (reportSink (trace ++ o.steps) o w) := by
      rw [reportSink]
      split <;> exact hw
    rw [followLines_cons]
    refine ih ?_ fun n e he ↦ hos n e (mem_append_right _ he)
    exact hreport.foldl_followEdge
      (fun e he ↦ hos _ e (mem_append_left _ (mem_map_of_mem he))) o.callStep

theorem Chained.next (hw : Chained help language index w)
    (h : next help language index w = some w') : Chained help language index w' := by
  rw [StaticAnalysis.next] at h
  split at h
  · simp at h
  next key trace tainted queue hqueue =>
  have hrest : Chained help language index (w.pop key queue) :=
    fun key' trace' tainted' hmem ↦
      hw key' trace' tainted' (hqueue ▸ mem_cons_of_mem _ hmem)
  split at h
  · obtain ⟨⟩ := h
    rw [Chained, truncate_queue]
    exact hrest
  split at h
  · obtain ⟨⟩ := h
    exact hrest
  · next function hfunction =>
    obtain ⟨⟩ := h
    have hhead := hw key trace tainted (hqueue ▸ mem_cons_self)
    have hnoted : Chained help language index ((w.pop key queue).note (key, tainted)) := hrest
    refine hnoted.followLines fun n e he ↦ .call hhead ?_
    rw [outcomesOf, hfunction]
    exact he

theorem chained_start : Chained help language index (start help language index) := by
  have hfold (ss : List TaintState) (hss : ∀ s ∈ ss, s ∈ seeds help language index) (w : Work)
      (hw : Chained help language index w) :
      Chained help language index (ss.foldl (fun w s ↦ w.enqueue s []) w) := by
    induction ss generalizing w with
    | nil => exact hw
    | cons s ss ih =>
      obtain ⟨hs, hss⟩ := forall_mem_cons.1 hss
      exact ih hss _ (hw.enqueue (.seed hs))
  exact hfold _ (fun s hs ↦ hs) _ (by simp [Chained])

/-- If no chain of calls brings a trace to the limit, nothing is lost there in any round. -/
theorem cutCovered_of_short_chains (hshort : ∀ n s, CallChain help language index n s →
      ∀ m e, (m, e) ∈ edgesAt n (outcomesOf help language index s) → m < maxTraceDepth)
    (hw : Leads (next help language index) (start help language index) w) :
    CutCovered help language index w := by
  have hchained : Chained help language index w :=
    hw.invariant chained_start fun _ _ _ h hnext ↦ h.next hnext
  intro key trace tainted queue hqueue n e he hn
  have hhead := hchained key trace tainted (hqueue ▸ mem_cons_self)
  exact absurd (hshort _ _ hhead n e he) (not_lt.2 hn)

/-! ### The whole scan -/

theorem Consistent.foldl_enqueue (hw : Consistent help language index w)
    (hsig : SignaturesApart help language index) {ss : List TaintState}
    (hss : ∀ s ∈ ss, Reachable help language index s) :
    Consistent help language index (ss.foldl (fun w s ↦ w.enqueue s []) w) ∧
      w.Extends (ss.foldl (fun w s ↦ w.enqueue s []) w) ∧
      ∀ s ∈ ss, s ∈ (ss.foldl (fun w s ↦ w.enqueue s []) w).queued := by
  induction ss generalizing w with
  | nil => exact ⟨hw, Work.Extends.refl w, by simp⟩
  | cons s ss ih =>
    obtain ⟨hs, hss⟩ := forall_mem_cons.1 hss
    obtain ⟨hconsistent, hextends, hqueued⟩ := ih (hw.enqueue hs []) hss
    refine ⟨hconsistent, (extends_enqueue w s []).trans hextends, forall_mem_cons.2 ⟨?_, hqueued⟩⟩
    exact hextends.queued s (hw.mem_queued_enqueue hsig hs [])

theorem covered_start (hsig : SignaturesApart help language index) :
    Covered help language index (start help language index) ∧
      ∀ s ∈ seeds help language index, s ∈ (start help language index).queued := by
  have hempty : Consistent help language index ⟨[], [], fun _ ↦ 0, [], [], [], [], []⟩ := by
    refine ⟨?_, ?_, ?_, ?_, ?_⟩ <;> simp
  obtain ⟨hconsistent, hextends, hqueued⟩ := hempty.foldl_enqueue hsig
    fun s (hs : s ∈ seeds help language index) ↦ .seed hs
  have hanalysed : (start help language index).analysed = [] := hextends.analysed
  refine ⟨⟨hconsistent, ?_, ?_⟩, hqueued⟩ <;> simp [hanalysed]

theorem queued_mono_next (h : next help language index w = some w') :
    ∀ s ∈ w.queued, s ∈ w'.queued := by
  rw [next] at h
  split at h
  · simp at h
  split at h
  · obtain ⟨⟩ := h
    rw [truncate]
    split <;> exact fun s hs ↦ hs
  split at h
  · obtain ⟨⟩ := h
    exact fun s hs ↦ hs
  · next key trace tainted queue _ _ _ function _ =>
    obtain ⟨⟩ := h
    intro s hs
    exact (extends_followLines trace _ _).queued s hs

/-- **A scan without a truncation gap is complete** if nothing is lost at the trace limit and
signatures tell parameter sets apart. The worklist ends, every seed is analysed, so is the target of
every call of an analysed state with exactly its parameters, and every sink of a state that calls
lead to, over any number of them, is reported. -/
theorem scan_complete_of_cutCovered (help : LineHelpers) (language : String) (index : FunctionIndex)
    (hsig : SignaturesApart help language index)
    (hcut : ∀ w, Leads (next help language index) (start help language index) w →
      CutCovered help language index w)
    (hgap : ¬(scan help language index).Truncated) :
    Leads (next help language index) (start help language index) (scan help language index) ∧
      (scan help language index).queue = [] ∧
      (∀ s ∈ seeds help language index, s ∈ (scan help language index).analysed) ∧
      (∀ s ∈ (scan help language index).analysed, ∀ e ∈ edgesOf help language index s,
        e.target ∈ (scan help language index).analysed) ∧
      ∀ s, Reachable help language index s → ∀ hit ∈ sinksOf help language index s,
        ∃ f ∈ (scan help language index).findings, f.hit = hit := by
  obtain ⟨hleads, hstopped⟩ :=
    leads_exhaust_and_stopped lowers_next _
  change Leads _ _ (scan help language index) at hleads
  change next help language index (scan help language index) = none at hstopped
  have hqueue : (scan help language index).queue = [] := by
    rw [next] at hstopped
    split at hstopped
    · assumption
    · split at hstopped
      · simp at hstopped
      · split at hstopped <;> simp at hstopped
  obtain ⟨hstart, hseeds⟩ := covered_start hsig
  obtain ⟨hcovered, hqueued⟩ := hleads.invariant
    (I := fun w ↦ Covered help language index w ∧ ∀ s ∈ seeds help language index, s ∈ w.queued)
    ⟨hstart, hseeds⟩ fun w w' hw ⟨hI, hs⟩ h ↦
      ⟨hI.next hsig (hcut w hw) h, fun s hmem ↦ queued_mono_next h s (hs s hmem)⟩
  -- The queue is empty and nothing was truncated: what was queued has been analysed.
  have hanalysed : ∀ s ∈ (scan help language index).queued,
      s ∈ (scan help language index).analysed := by
    intro s hs
    rcases hcovered.consistent.waiting s hs with h | ⟨trace, h⟩ | h
    · exact h
    · simp [hqueue] at h
    · exact absurd h hgap
  have hclosed : ∀ s ∈ (scan help language index).analysed, ∀ e ∈ edgesOf help language index s,
      e.target ∈ (scan help language index).analysed :=
    fun s hs e he ↦ hanalysed _ (hcovered.closed s hs e he)
  refine ⟨hleads, hqueue, fun s hs ↦ hanalysed s (hqueued s hs), hclosed, fun s hs ↦ ?_⟩
  refine hcovered.reported s ?_
  induction hs with
  | seed hs => exact hanalysed _ (hqueued _ hs)
  | edge _ he ih => exact hclosed _ ih _ he

/-! ### Copies before a call -/

/-- Variables and the lines that copy the input to them. -/
def copies : List (String × String) :=
  [("a", "a = input;"), ("b", "b = input;"), ("c", "c = input;"), ("d", "d = input;"),
   ("e", "e = input;"), ("f", "f = input;"), ("g", "g = input;"), ("h", "h = input;"),
   ("i", "i = input;"), ("j", "j = input;"), ("k", "k = input;"), ("l", "l = input;"),
   ("m", "m = input;"), ("n", "n = input;"), ("o", "o = input;"), ("p", "p = input;"),
   ("q", "q = input;"), ("r", "r = input;"), ("s", "s = input;"), ("t", "t = input;"),
   ("u", "u = input;"), ("v", "v = input;"), ("w", "w = input;"), ("x", "x = input;")]

/-- Lines that copy the input, pass it on or are a sink, by their text alone. -/
def plainLines : LineHelpers where
  isSourceParam param := param == "input"
  normalizeToken := id
  lineHasSourceApi _ _ := false
  nonTaintReturningNames _ _ := ∅
  loopCarriedTaint _ _ _ _ := ∅
  isLoopHeader _ := false
  cppLocalObjectDeclarations _ := []
  braceDelta _ := 0
  guardValidatedVars _ _ := []
  applyLocalTaintAssignments text _ tainted _ :=
    match copies.find? fun copy ↦ copy.2 == text with
    | none => ([], tainted)
    | some copy => (if copy.1 ∈ tainted then [] else [copy.1], insert copy.1 tainted)
  containerTaintPropagatorCalls _ _ _ := []
  taintSinkAt text _ := if text == "system(x);" then some (⟨"BHF-CWE-78", "system"⟩, 0) else none
  lineUsesTaint _ tainted := decide (tainted ≠ ∅)
  taintSinkConfirmed _ _ _ := true
  taintSinkLabels _ := ("", "", "")
  localCalls text _ _ _ _ := if text == "run(x);" then [("run", ⟨"a.c", "run", 1⟩)] else []
  taintedParamsForCall _ _ _ _ _ := {"x"}
  unresolvedCalls _ _ _ _ _ := []
  relativePath := id
  trim := id

/-- A function that copies its input, leaving out `n` of the copies, and passes the last copy to a
function with a sink. -/
def copiesThenCall (n : ℕ) : FunctionIndex where
  models := [
    (⟨"a.c", "main", 1⟩, ⟨"main", "a.c", ["input"],
      ((copies.drop n).zipIdx 2).map (fun (copy, i) ↦ ⟨UInt32.ofNat i, copy.2⟩) ++
        [⟨26, "run(x);"⟩]⟩),
    (⟨"a.c", "run", 1⟩, ⟨"run", "a.c", ["x"], [⟨30, "system(x);"⟩]⟩)]
  nodup := by simp

abbrev mainState : TaintState := (⟨"a.c", "main", 1⟩, {"input"})

abbrev runState : TaintState := (⟨"a.c", "run", 1⟩, {"x"})

/-- After 24 copies the call is dropped: the scan ends after one round, without a gap, and the sink
in the function that is called is not reported. -/
theorem scan_drops_call_after_copies :
    (scan plainLines "c" (copiesThenCall 0)).gaps = [] ∧
      mainState ∈ (scan plainLines "c" (copiesThenCall 0)).analysed ∧
      (∃ e ∈ edgesOf plainLines "c" (copiesThenCall 0) mainState, e.target = runState) ∧
      runState ∉ (scan plainLines "c" (copiesThenCall 0)).analysed ∧
      sinksOf plainLines "c" (copiesThenCall 0) runState ≠ [] ∧
      (scan plainLines "c" (copiesThenCall 0)).findings = [] := by
  obtain ⟨w, hnext, hqueue, hgaps, hfindings, hanalysed⟩ : ∃ w,
      next plainLines "c" (copiesThenCall 0) (start plainLines "c" (copiesThenCall 0)) = some w ∧
        w.queue = [] ∧ w.gaps = [] ∧ w.findings = [] ∧ w.analysed = [mainState] :=
    ⟨_, rfl, rfl, rfl, rfl, rfl⟩
  have hscan : scan plainLines "c" (copiesThenCall 0) = w := by
    rw [scan, exhaust_of_next hnext, exhaust_of_stopped]
    rw [next, hqueue]
  have hedges : edgesOf plainLines "c" (copiesThenCall 0) mainState =
      [⟨"run", ⟨"a.c", "run", 1⟩, {"x"}⟩] := rfl
  rw [hscan, hanalysed, hedges]
  refine ⟨hgaps, mem_singleton_self _, ⟨_, mem_singleton_self _, rfl⟩, by decide, ?_, hfindings⟩
  exact cons_ne_nil _ _

theorem callChain_copiesThenCall (h : CallChain plainLines "c" (copiesThenCall 23) n s) :
    (n = 0 ∧ s = mainState) ∨ (n = 2 ∧ s = runState) := by
  induction h with
  | seed hs => exact .inl ⟨rfl, mem_singleton.1 hs⟩
  | call _ he ih =>
    rcases ih with ⟨rfl, rfl⟩ | ⟨rfl, rfl⟩
    · obtain ⟨⟩ := mem_singleton.1 he
      exact .inr ⟨rfl, rfl⟩
    · exact absurd he not_mem_nil

theorem reachable_copiesThenCall (h : Reachable plainLines "c" (copiesThenCall 23) s) :
    s = mainState ∨ s = runState := by
  induction h with
  | seed hs => exact .inl (mem_singleton.1 hs)
  | edge _ he ih =>
    rcases ih with rfl | rfl
    · obtain rfl := mem_singleton.1 he
      exact .inr rfl
    · exact absurd he not_mem_nil

theorem signaturesApart_copiesThenCall : SignaturesApart plainLines "c" (copiesThenCall 23) := by
  intro key tainted tainted' h h' _
  rcases reachable_copiesThenCall h with h | h <;>
    rcases reachable_copiesThenCall h' with h' | h' <;>
    obtain ⟨hkey, rfl⟩ := Prod.mk.inj h <;>
    obtain ⟨hkey', rfl⟩ := Prod.mk.inj h' <;>
    first
      | rfl
      | exact absurd (hkey.symm.trans hkey') (by decide)

theorem scan_copiesThenCall_not_truncated :
    ¬(scan plainLines "c" (copiesThenCall 23)).Truncated := by
  obtain ⟨w, w', hnext, hnext', hqueue, hgaps⟩ : ∃ w w',
      next plainLines "c" (copiesThenCall 23) (start plainLines "c" (copiesThenCall 23)) = some w ∧
        next plainLines "c" (copiesThenCall 23) w = some w' ∧ w'.queue = [] ∧ w'.gaps = [] :=
    ⟨_, _, rfl, rfl, rfl, rfl⟩
  rw [scan, exhaust_of_next hnext, exhaust_of_next hnext', exhaust_of_stopped]
  · rintro ⟨g, hg, -⟩
    simp [hgaps] at hg
  · rw [next, hqueue]

/-- After one copy the call is followed. -/
theorem scan_complete_after_copy :
    runState ∈ (scan plainLines "c" (copiesThenCall 23)).analysed := by
  obtain ⟨-, -, hseeds, hclosed, -⟩ := scan_complete_of_cutCovered plainLines "c"
    (copiesThenCall 23) signaturesApart_copiesThenCall
    (fun w hw ↦ cutCovered_of_short_chains (fun n s h m e he ↦ by
      rcases callChain_copiesThenCall h with ⟨rfl, rfl⟩ | ⟨rfl, rfl⟩
      · obtain ⟨⟩ := mem_singleton.1 he
        decide
      · exact absurd he not_mem_nil) hw)
    scan_copiesThenCall_not_truncated
  exact hclosed mainState (hseeds _ (mem_singleton_self _))
    ⟨"run", ⟨"a.c", "run", 1⟩, {"x"}⟩ (mem_singleton_self _)

end Bhf.StaticAnalysis
