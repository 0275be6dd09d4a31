import Mathlib.Data.Finset.Sort
import Mathlib.Data.String.Basic
import Bhf.Lib.Exhaust

/-!
# The interprocedural taint worklist

`scan_taint_language` analyses functions under sets of tainted parameters. It starts from the
functions that read untrusted input, walks the lines of a function with the taint that is active
there, reports the sinks it confirms, and queues the functions that tainted values are passed to.

What a line does to the taint and which calls it makes are questions about the text of one line; the
answers come from helpers that are taken as given (`LineHelpers`). What is modelled is everything
between them: the line loop with its loop-carried taint, guards and trace, the queue with its
deduplication by signature, **the cap on the states of one function, which records a gap, and the
cap on the length of a trace, which records nothing**.

The walk over the lines is split in two. `stepLine` computes what a line does from the active taint
alone (`LineOutcome`); `followLine` puts the outcome to use. The trace only grows along the way, so
which calls and sinks a function has under a set of tainted parameters does not depend on it
(`edgesOf`, `sinksOf`). The stop under memory pressure is left out.

`Work` carries two fields the source does not have, `queued` and `analysed`: the states that were
ever queued and those that were analysed.
-/

namespace Bhf.StaticAnalysis

/-! ### Functions -/

structure BodyLine where
  line : UInt32
  text : String

structure FunctionModel where
  name : String
  path : String
  params : List String
  body : List BodyLine

structure FunctionKey where
  path : String
  name : String
  arity : ℕ
  deriving DecidableEq

/-- The functions of one language, in the order of their keys. -/
structure FunctionIndex where
  models : List (FunctionKey × FunctionModel)
  nodup : (models.map Prod.fst).Nodup

def FunctionIndex.get (index : FunctionIndex) (key : FunctionKey) : Option FunctionModel :=
  index.models.lookup key

/-! ### Reports -/

structure TraceStep where
  kind : String
  path : String
  line : UInt32
  caller : String
  callee : String
  snippet : String

structure AnalysisGap where
  path : String
  line : UInt32
  caller : String
  callee : String
  reason : String
  snippet : String

structure TaintSink where
  ruleId : String
  display : String

/-- What a finding says about the place of the sink. -/
structure SinkHit where
  path : String
  lineIndex : ℕ
  column : ℕ
  ruleId : String
  slug : String
  message : String
  detail : String
  snippet : String
  sink : String
  tainted : Finset String

/-- A finding: the sink and the trace that leads to it. -/
structure StaticFinding where
  hit : SinkHit
  trace : List TraceStep
  interproceduralDepth : ℕ
  confidenceReason : String

/-- A call that passes taint. -/
structure CallEdge where
  callee : String
  calleeKey : FunctionKey
  taintedParams : Finset String

/-! ### The line-level helpers -/

/-- The objects a C++ function has declared so far, with their types. -/
abbrev Objects := String → Option String

/-- The questions about the text of one line, or of one function, that are answered elsewhere. -/
structure LineHelpers where
  isSourceParam : String → Bool
  normalizeToken : String → String
  lineHasSourceApi : String → String → Bool
  nonTaintReturningNames : FunctionIndex → String → Finset String
  loopCarriedTaint : FunctionModel → String → Finset String → Finset String → Finset String
  isLoopHeader : String → Bool
  cppLocalObjectDeclarations : String → List (String × String)
  braceDelta : String → ℤ
  guardValidatedVars : String → Finset String → List String
  applyLocalTaintAssignments : String → String → Finset String → Finset String →
    List String × Finset String
  containerTaintPropagatorCalls : String → String → Finset String → List (String × String)
  taintSinkAt : String → String → Option (TaintSink × ℕ)
  lineUsesTaint : String → Finset String → Bool
  taintSinkConfirmed : TaintSink → String → Finset String → Bool
  taintSinkLabels : String → String × String × String
  localCalls : String → FunctionIndex → FunctionKey → String → Objects →
    List (String × FunctionKey)
  taintedParamsForCall : String → String → FunctionModel → String → Finset String → Finset String
  unresolvedCalls : String → FunctionIndex → FunctionKey → String → Objects → List String
  relativePath : String → String
  trim : String → String

variable (help : LineHelpers) (language : String) (index : FunctionIndex)

/-- The resolved calls of a line that pass taint, with the parameters they taint. -/
def localCallEdges (line : String) (current : FunctionKey) (tainted : Finset String)
    (cppObjects : Objects) : List CallEdge :=
  (help.localCalls line index current language cppObjects).filterMap fun (call, calleeKey) ↦
    match index.get calleeKey with
    | none => none
    | some model =>
      let taintedParams := help.taintedParamsForCall line call model language tainted
      if taintedParams = ∅ then none else some ⟨model.name, calleeKey, taintedParams⟩

/-! ### One line -/

/-- What is carried from line to line, apart from the trace. -/
structure Active where
  tainted : Finset String
  cppObjects : Objects
  braceDepth : ℤ
  guardRestores : List (ℤ × List String)

/-- What a line does. -/
structure LineOutcome where
  steps : List TraceStep
  hit : Option SinkHit
  sinkStep : TraceStep
  edges : List CallEdge
  callStep : String → TraceStep
  unresolved : List AnalysisGap

/-- Re-taint the variables of guards whose block has closed, innermost first. -/
def closeGuards (braceDepth : ℤ) (tainted : Finset String) :
    List (ℤ × List String) → Finset String × List (ℤ × List String)
  | [] => (tainted, [])
  | (entryDepth, vars) :: rest =>
    if braceDepth ≤ entryDepth then closeGuards braceDepth (tainted ∪ vars.toFinset) rest
    else (tainted, (entryDepth, vars) :: rest)

/-- Taint the aliases that container operations on this line produce; the new ones are returned. -/
def propagate (tainted : Finset String) : List (String × String) → List String × Finset String
  | [] => ([], tainted)
  | (name, _) :: rest =>
    if name ∈ tainted then propagate tainted rest
    else
      let (aliases, tainted) := propagate (insert name tainted) rest
      (name :: aliases, tainted)

section Line

variable (key : FunctionKey) (function : FunctionModel) (loopCarried nonReturning : Finset String)

/-- The taint with which the line is looked at: loop-carried taint comes in at a loop header, and
what a guard on the line validates goes out. -/
def guardedTaint (a : Active) (line : BodyLine) : Finset String × List String :=
  let tainted := if help.isLoopHeader line.text then a.tainted ∪ loopCarried else a.tainted
  let validated := help.guardValidatedVars line.text tainted
  (tainted \ validated.toFinset, validated)

def traceStep (kind callee : String) (line : BodyLine) : TraceStep :=
  ⟨kind, help.relativePath function.path, line.line, function.name, callee, help.trim line.text⟩

def sinkHit (line : BodyLine) (tainted : Finset String) : Option SinkHit :=
  match help.taintSinkAt line.text language with
  | none => none
  | some (sink, column) =>
    if help.lineUsesTaint line.text tainted && help.taintSinkConfirmed sink line.text tainted then
      let (slug, message, detail) := help.taintSinkLabels sink.ruleId
      some ⟨function.path, line.line.toNat - 1, column, sink.ruleId, slug, message, detail,
        help.trim line.text, sink.display, tainted⟩
    else none

/-- The calls of a line that could not be resolved although the line uses taint. -/
def unresolvedGaps (line : BodyLine) (tainted : Finset String) (cppObjects : Objects)
    (propagators : List (String × String)) : List AnalysisGap :=
  ((help.unresolvedCalls line.text index key language cppObjects).filter fun callee ↦
      !propagators.any (fun p ↦ p.2.toLower == callee.toLower) &&
        help.lineUsesTaint line.text tainted).map fun callee ↦
    ⟨help.relativePath function.path, line.line, function.name, callee,
      "unresolved_project_local_call", help.trim line.text⟩

/-- One round of the line loop, without the trace. -/
def stepLine (a : Active) (line : BodyLine) : Active × LineOutcome :=
  let cppObjects : Objects :=
    if language = "cpp" then
      (help.cppLocalObjectDeclarations line.text).foldl
        (fun objects (name, typeName) ↦ Function.update objects name (some typeName)) a.cppObjects
    else a.cppObjects
  let lineDelta := help.braceDelta line.text
  let (guarded, validated) := guardedTaint help loopCarried a line
  let opensBlock := !validated.isEmpty && decide (0 < lineDelta)
  let guardRestores :=
    if opensBlock then (a.braceDepth, validated) :: a.guardRestores else a.guardRestores
  let restoreAfterLine := if opensBlock then [] else validated
  let (aliases, assigned) :=
    help.applyLocalTaintAssignments line.text language guarded nonReturning
  let propagators := help.containerTaintPropagatorCalls line.text language assigned
  let (propagated, tainted) := propagate assigned propagators
  let (closed, guardRestores) := closeGuards (a.braceDepth + lineDelta)
    (tainted ∪ restoreAfterLine.toFinset) guardRestores
  ({ tainted := closed
     cppObjects := cppObjects
     braceDepth := a.braceDepth + lineDelta
     guardRestores := guardRestores },
   { steps := aliases.map (traceStep help function "assignment" · line) ++
       propagated.map (traceStep help function "propagator" · line)
     hit := sinkHit help language function line tainted
     sinkStep := traceStep help function "sink"
       (((help.taintSinkAt line.text language).map fun s ↦ s.1.display).getD "") line
     edges := localCallEdges help language index line.text key tainted cppObjects
     callStep := fun callee ↦ traceStep help function "call" callee line
     unresolved :=
       unresolvedGaps help language index key function line tainted cppObjects propagators })

/-- The outcomes of the lines of a body. -/
def outcomesFrom (a : Active) : List BodyLine → List LineOutcome
  | [] => []
  | line :: lines =>
    let (a, outcome) := stepLine help language index key function loopCarried nonReturning a line
    outcome :: outcomesFrom a lines

end Line

/-- The outcomes of a function under a set of tainted parameters. -/
def outcomes (key : FunctionKey) (function : FunctionModel) (tainted : Finset String) :
    List LineOutcome :=
  let nonReturning := help.nonTaintReturningNames index language
  outcomesFrom help language index key function
    (help.loopCarriedTaint function language tainted nonReturning) nonReturning
    ⟨tainted, fun _ ↦ none, 0, []⟩ function.body

/-! ### The worklist -/

/-- Distinct taint states of one function that are analysed. -/
def maxFnTaintStates : ℕ := 48

/-- Steps of a trace beyond which calls are not followed. -/
def maxTraceDepth : ℕ := 24

/-- A function under a set of tainted parameters. -/
abbrev TaintState := FunctionKey × Finset String

/-- The text that identifies a set of tainted parameters. -/
def signature (tainted : Finset String) : String :=
  ",".intercalate (tainted.sort (· ≤ ·))

structure Work where
  queue : List (FunctionKey × List TraceStep × Finset String)
  enqueued : List (FunctionKey × String)
  fnStates : FunctionKey → ℕ
  truncated : List FunctionKey
  findings : List StaticFinding
  gaps : List AnalysisGap
  queued : List TaintState
  analysed : List TaintState

/-- Queue a state unless one with its signature has been queued for the function. -/
def Work.enqueue (w : Work) (s : TaintState) (trace : List TraceStep) : Work :=
  if (s.1, signature s.2) ∈ w.enqueued then w
  else
    { w with
      queue := w.queue ++ [(s.1, trace, s.2)]
      enqueued := (s.1, signature s.2) :: w.enqueued
      queued := s :: w.queued }

def CallEdge.target (e : CallEdge) : TaintState :=
  (e.calleeKey, e.taintedParams)

/-- Follow a call, unless the trace has reached its limit. -/
def followEdge (callStep : String → TraceStep) (trace : List TraceStep) (w : Work)
    (e : CallEdge) : Work :=
  if maxTraceDepth ≤ trace.length then w
  else w.enqueue e.target (trace ++ [callStep e.callee])

def reportSink (trace : List TraceStep) (o : LineOutcome) (w : Work) : Work :=
  match o.hit with
  | none => w
  | some hit =>
    let sinkTrace := trace ++ [o.sinkStep]
    { w with
      findings := w.findings ++ [
        { hit := hit
          trace := sinkTrace
          interproceduralDepth := (sinkTrace.filter fun step ↦ step.kind == "call").length
          confidenceReason :=
            if sinkTrace.any fun step ↦ step.kind == "assignment" then "local_alias_taint_trace"
            else "argument_mapped_taint_trace" }] }

/-- Put the outcomes of the lines to use, one line after the other. -/
def followLines (trace : List TraceStep) (w : Work) : List LineOutcome → Work
  | [] => w
  | o :: os =>
    let trace := trace ++ o.steps
    let w := reportSink trace o w
    let w := o.edges.foldl (followEdge o.callStep trace) w
    followLines trace { w with gaps := w.gaps ++ o.unresolved } os

def truncationGap (function : FunctionModel) : AnalysisGap :=
  ⟨help.relativePath function.path, (function.body.head?.map BodyLine.line).getD 0,
    function.name, "", "taint_analysis_truncated_fanout",
    "interprocedural taint fan-out exceeded 48 states"⟩

/-- The function has used up its states: record that once. -/
def Work.truncate (w : Work) (key : FunctionKey) : Work :=
  if key ∈ w.truncated then w
  else
    { w with
      truncated := key :: w.truncated
      gaps := match index.get key with
        | none => w.gaps
        | some function => w.gaps ++ [truncationGap help function] }

/-- Take a state of `key` from the queue and count it. -/
def Work.pop (w : Work) (key : FunctionKey)
    (queue : List (FunctionKey × List TraceStep × Finset String)) : Work :=
  { w with queue := queue, fnStates := Function.update w.fnStates key (w.fnStates key + 1) }

/-- Note that a state is analysed. -/
def Work.note (w : Work) (s : TaintState) : Work :=
  { w with analysed := s :: w.analysed }

/-- One round of the worklist loop. -/
def next (w : Work) : Option Work :=
  match w.queue with
  | [] => none
  | (key, trace, tainted) :: queue =>
    if maxFnTaintStates < w.fnStates key + 1 then some ((w.pop key queue).truncate help index key)
    else
      match index.get key with
      | none => some (w.pop key queue)
      | some function =>
        some (followLines trace ((w.pop key queue).note (key, tainted))
          (outcomes help language index key function tainted))

/-! ### Seeds -/

/-- The taint a function starts with, if it reads untrusted input. -/
def seedOf (function : FunctionModel) : Option (Finset String) :=
  if function.params.any help.isSourceParam then
    some (function.params.map help.normalizeToken).toFinset
  else if function.body.any fun line ↦ help.lineHasSourceApi line.text language then some ∅
  else none

def seeds : List TaintState :=
  index.models.filterMap fun (key, function) ↦
    (seedOf help language function).map fun tainted ↦ (key, tainted)

/-- The worklist before the first round. -/
def start : Work :=
  (seeds help language index).foldl (fun w s ↦ w.enqueue s [])
    ⟨[], [], fun _ ↦ 0, [], [], [], [], []⟩

end Bhf.StaticAnalysis
