import Bhf.EventLog.Grouping
import Bhf.Lib.KeySet
import Bhf.Lib.Text
import Bhf.Lib.Words

/-!
# Coverage feedback

`CoverageProxy` keeps eight sets of keys, one for each kind of observation. Recording an input
inserts the keys of the input into each set and reports how many of them were new. The keys are
hashes, except for the exception signatures and the return classes: keys that collide count once,
here and in the sets.

All eight channels do one thing, `insertKeys`, with their own keys (`record_bits`, `record_count`),
so whatever is said about a run is said once for an arbitrary `Channel`.

The block hit counts of an input stand in a hash map, and the order in which they are visited is
unspecified. A `RecordCall` carries that order.
-/

namespace Bhf.FuzzEngine

open EventLog List

/-- The logarithmic bucket of a hit count. -/
def countToBucket (n : UInt32) : UInt8 :=
  if n ≤ 1 then 0
  else if n ≤ 2 then 1
  else if n ≤ 3 then 2
  else if n ≤ 7 then 3
  else if n ≤ 15 then 4
  else if n ≤ 31 then 5
  else if n ≤ 127 then 6
  else 7

structure CoverageSignature where
  bytes : Bytes
  length_bytes : bytes.length = 32
  deriving DecidableEq

structure CoverageInput where
  testcase : Testcase
  exceptionSignatures : List CoverageSignature

/-! ### Keys -/

/-- The state of the 64-bit FNV-1a hash. -/
structure StableHash where
  value : UInt64

namespace StableHash

def new : StableHash :=
  ⟨0xcbf29ce484222325⟩

def writeBytes (hash : StableHash) (bytes : Bytes) : StableHash :=
  bytes.foldl (fun hash byte ↦ ⟨(hash.value ^^^ byte.toUInt64) * 0x00000100000001b3⟩) hash

def writeU32 (hash : StableHash) (value : UInt32) : StableHash :=
  hash.writeBytes (leBytes 4 value.toNat)

def writeStr (hash : StableHash) (value : String) : StableHash :=
  (hash.writeBytes (utf8Bytes value)).writeBytes [0]

def finish (hash : StableHash) : UInt64 :=
  hash.value

end StableHash

def breadcrumbBucketBit (crumb : UInt32) (bucket : UInt8) : UInt64 :=
  (((StableHash.new.writeBytes (utf8Bytes "block")).writeU32 crumb).writeBytes [bucket]).finish

def edgeBit (prev cur : UInt32) : UInt64 :=
  (((StableHash.new.writeBytes (utf8Bytes "edge")).writeU32 prev).writeU32 cur).finish

def handlerBit (handler : HandlerEvent) : UInt64 :=
  (((((StableHash.new.writeU32 handler.targetId).writeStr handler.handlerFile).writeU32
    handler.handlerLine).writeU32 handler.lastBreadcrumb).writeStr
    handler.exceptionName.toLower).finish

def raiseBit (raise : RaiseEvent) : UInt64 :=
  ((((StableHash.new.writeStr raise.exceptionName.toLower).writeStr raise.file).writeU32
    raise.line).writeU32 raise.breadcrumb).finish

def topLevelBit (topLevel : TopLevelEvent) : UInt64 :=
  ((StableHash.new.writeStr topLevel.exceptionName.toLower).writeStr
    topLevel.exceptionMessage).finish

def stableHashBytes (bytes : Bytes) : UInt64 :=
  (StableHash.new.writeBytes bytes).finish

/-! ### Hit counts -/

/-- Count one more hit of a block. -/
def bumpHit : List (UInt32 × UInt32) → UInt32 → List (UInt32 × UInt32)
  | [], crumb => [(crumb, 1)]
  | (block, count) :: hits, crumb =>
    if block = crumb then (block, count + 1) :: hits else (block, count) :: bumpHit hits crumb

/-- How often each block was hit. -/
def blockHits (crumbs : List UInt32) : List (UInt32 × UInt32) :=
  crumbs.foldl bumpHit []

/-- One call of `record`: the input, and the order in which its hit counts are visited. -/
structure RecordCall where
  input : CoverageInput
  hits : List (UInt32 × UInt32)
  perm : hits.Perm (blockHits input.testcase.crumbs)

/-- The call that visits the hit counts in the order in which the blocks were first hit. -/
def RecordCall.ofInput (input : CoverageInput) : RecordCall :=
  ⟨input, blockHits input.testcase.crumbs, .refl _⟩

/-! ### Recording -/

structure CoverageFeedback where
  newExceptionSignatures : UInt32 := 0
  newBreadcrumbBits : UInt32 := 0
  newEdgeBits : UInt32 := 0
  newHandlerBits : UInt32 := 0
  newRaiseBits : UInt32 := 0
  newTopLevelBits : UInt32 := 0
  newReturnClassBits : UInt32 := 0
  newMockCallBits : UInt32 := 0

def CoverageFeedback.newBitmapBits (feedback : CoverageFeedback) : UInt32 :=
  saturatingAdd32 (saturatingAdd32 (saturatingAdd32 (saturatingAdd32 (saturatingAdd32
    (saturatingAdd32 feedback.newBreadcrumbBits feedback.newEdgeBits) feedback.newHandlerBits)
    feedback.newRaiseBits) feedback.newTopLevelBits) feedback.newReturnClassBits)
    feedback.newMockCallBits

def CoverageFeedback.isEmpty (feedback : CoverageFeedback) : Bool :=
  feedback.newExceptionSignatures = 0 && feedback.newBitmapBits = 0

structure CoverageSnapshot where
  exceptionSignatures : ℕ
  breadcrumbBits : ℕ
  edgeBits : ℕ
  handlerBits : ℕ
  raiseBits : ℕ
  topLevelBits : ℕ
  returnClassBits : ℕ
  mockCallBits : ℕ

structure CoverageProxy where
  exceptionSignatures : Finset CoverageSignature := ∅
  breadcrumbBits : Finset UInt64 := ∅
  edgeBits : Finset UInt64 := ∅
  handlerBits : Finset UInt64 := ∅
  raiseBits : Finset UInt64 := ∅
  topLevelBits : Finset UInt64 := ∅
  returnClassBits : Finset UInt64 := ∅
  mockCallBits : Finset UInt64 := ∅

namespace CoverageProxy

def record (self : CoverageProxy) (call : RecordCall) : CoverageFeedback × CoverageProxy :=
  let testcase := call.input.testcase
  let signatures := insertKeys self.exceptionSignatures call.input.exceptionSignatures
  let breadcrumbs := insertKeys self.breadcrumbBits
    (call.hits.map fun hit ↦ breadcrumbBucketBit hit.1 (countToBucket hit.2))
  let edges := insertKeys self.edgeBits
    (List.zipWith edgeBit testcase.crumbs testcase.crumbs.tail)
  let handlers := insertKeys self.handlerBits (testcase.handlers.map handlerBit)
  let raises := insertKeys self.raiseBits (testcase.raises.map raiseBit)
  let topLevels := insertKeys self.topLevelBits (testcase.topLevel.map topLevelBit).toList
  let returnClasses := insertKeys self.returnClassBits
    (testcase.ended.map fun ended ↦ ended.resultClass.toUInt64).toList
  let mocks := insertKeys self.mockCallBits
    (testcase.mocks.map fun mock ↦ stableHashBytes (utf8Bytes mock.symbol))
  (⟨signatures.2, breadcrumbs.2, edges.2, handlers.2, raises.2, topLevels.2, returnClasses.2,
      mocks.2⟩,
    ⟨signatures.1, breadcrumbs.1, edges.1, handlers.1, raises.1, topLevels.1, returnClasses.1,
      mocks.1⟩)

def snapshot (self : CoverageProxy) : CoverageSnapshot where
  exceptionSignatures := self.exceptionSignatures.card
  breadcrumbBits := self.breadcrumbBits.card
  edgeBits := self.edgeBits.card
  handlerBits := self.handlerBits.card
  raiseBits := self.raiseBits.card
  topLevelBits := self.topLevelBits.card
  returnClassBits := self.returnClassBits.card
  mockCallBits := self.mockCallBits.card

end CoverageProxy

/-! ### The eight channels as one -/

inductive Channel where
  | exceptionSignatures
  | breadcrumbs
  | edges
  | handlers
  | raises
  | topLevels
  | returnClasses
  | mockCalls

/-- What a channel tells apart. -/
def Channel.Key : Channel → Type
  | .exceptionSignatures => CoverageSignature
  | _ => UInt64

instance (c : Channel) : DecidableEq c.Key :=
  match c with
  | .exceptionSignatures => inferInstanceAs (DecidableEq CoverageSignature)
  | .breadcrumbs | .edges | .handlers | .raises | .topLevels | .returnClasses | .mockCalls =>
    inferInstanceAs (DecidableEq UInt64)

def CoverageFeedback.count (feedback : CoverageFeedback) : Channel → UInt32
  | .exceptionSignatures => feedback.newExceptionSignatures
  | .breadcrumbs => feedback.newBreadcrumbBits
  | .edges => feedback.newEdgeBits
  | .handlers => feedback.newHandlerBits
  | .raises => feedback.newRaiseBits
  | .topLevels => feedback.newTopLevelBits
  | .returnClasses => feedback.newReturnClassBits
  | .mockCalls => feedback.newMockCallBits

def CoverageSnapshot.count (snapshot : CoverageSnapshot) : Channel → ℕ
  | .exceptionSignatures => snapshot.exceptionSignatures
  | .breadcrumbs => snapshot.breadcrumbBits
  | .edges => snapshot.edgeBits
  | .handlers => snapshot.handlerBits
  | .raises => snapshot.raiseBits
  | .topLevels => snapshot.topLevelBits
  | .returnClasses => snapshot.returnClassBits
  | .mockCalls => snapshot.mockCallBits

/-- The keys a call inserts. -/
def RecordCall.keys (call : RecordCall) : (c : Channel) → List c.Key
  | .exceptionSignatures => call.input.exceptionSignatures
  | .breadcrumbs => call.hits.map fun hit ↦ breadcrumbBucketBit hit.1 (countToBucket hit.2)
  | .edges => List.zipWith edgeBit call.input.testcase.crumbs call.input.testcase.crumbs.tail
  | .handlers => call.input.testcase.handlers.map handlerBit
  | .raises => call.input.testcase.raises.map raiseBit
  | .topLevels => (call.input.testcase.topLevel.map topLevelBit).toList
  | .returnClasses => (call.input.testcase.ended.map fun ended ↦ ended.resultClass.toUInt64).toList
  | .mockCalls => call.input.testcase.mocks.map fun mock ↦ stableHashBytes (utf8Bytes mock.symbol)

theorem CoverageFeedback.eq_empty {feedback : CoverageFeedback} (h : ∀ c, feedback.count c = 0) :
    feedback = {} := by
  exact (CoverageFeedback.mk.injEq ..).mpr ⟨h .exceptionSignatures, h .breadcrumbs, h .edges,
    h .handlers, h .raises, h .topLevels, h .returnClasses, h .mockCalls⟩

theorem CoverageSnapshot.eq_of_count {s t : CoverageSnapshot} (h : ∀ c, s.count c = t.count c) :
    s = t := by
  exact (CoverageSnapshot.mk.injEq ..).mpr ⟨h .exceptionSignatures, h .breadcrumbs, h .edges,
    h .handlers, h .raises, h .topLevels, h .returnClasses, h .mockCalls⟩

namespace CoverageProxy

variable (self : CoverageProxy) (call : RecordCall) (c : Channel)

def bits : (c : Channel) → Finset c.Key
  | .exceptionSignatures => self.exceptionSignatures
  | .breadcrumbs => self.breadcrumbBits
  | .edges => self.edgeBits
  | .handlers => self.handlerBits
  | .raises => self.raiseBits
  | .topLevels => self.topLevelBits
  | .returnClasses => self.returnClassBits
  | .mockCalls => self.mockCallBits

theorem snapshot_count : self.snapshot.count c = (self.bits c).card := by
  cases c <;> rfl

theorem record_bits : (self.record call).2.bits c = (insertKeys (self.bits c) (call.keys c)).1 := by
  cases c <;> rfl

theorem record_count :
    (self.record call).1.count c = (insertKeys (self.bits c) (call.keys c)).2 := by
  cases c <;> rfl

end CoverageProxy

/-! ### Keys of an input -/

/-- **The keys do not depend on the order in which the hit counts are visited.** -/
theorem RecordCall.toFinset_keys {call call' : RecordCall} (h : call.input = call'.input)
    (c : Channel) : (call.keys c).toFinset = (call'.keys c).toFinset := by
  obtain ⟨input, hits, perm⟩ := call
  obtain ⟨input', hits', perm'⟩ := call'
  obtain rfl : input = input' := h
  cases c with
  | breadcrumbs => exact toFinset_eq_of_perm _ _ ((perm.trans perm'.symm).map _)
  | _ => rfl

theorem length_bumpHit_le (crumb : UInt32) (hits : List (UInt32 × UInt32)) :
    (bumpHit hits crumb).length ≤ hits.length + 1 := by
  induction hits with
  | nil => exact le_rfl
  | cons hit hits ih =>
    rw [bumpHit]
    split
    · exact Nat.le_succ _
    · exact Nat.succ_le_succ ih

theorem length_blockHits_le (crumbs : List UInt32) : (blockHits crumbs).length ≤ crumbs.length := by
  have hfold : ∀ hits, (crumbs.foldl bumpHit hits).length ≤ hits.length + crumbs.length := by
    induction crumbs with
    | nil => exact fun _ ↦ le_rfl
    | cons crumb crumbs ih =>
      intro hits
      have := ih (bumpHit hits crumb)
      have := length_bumpHit_le crumb hits
      rw [foldl_cons, length_cons]
      omega
  simpa [blockHits] using hfold []

/-- Every list of an input is shorter than the counters can count. -/
structure CoverageInput.Short (input : CoverageInput) : Prop where
  crumbs : input.testcase.crumbs.length < 2 ^ 32
  exceptionSignatures : input.exceptionSignatures.length < 2 ^ 32
  handlers : input.testcase.handlers.length < 2 ^ 32
  raises : input.testcase.raises.length < 2 ^ 32
  mocks : input.testcase.mocks.length < 2 ^ 32

theorem RecordCall.length_keys_lt {call : RecordCall} (h : call.input.Short) (c : Channel) :
    (call.keys c).length < 2 ^ 32 := by
  have htwo : 1 < 2 ^ 32 := by decide
  cases c with
  | exceptionSignatures => exact h.exceptionSignatures
  | breadcrumbs =>
    have hlen : (call.keys .breadcrumbs).length = call.hits.length := length_map _
    have hhits := call.perm.length_eq
    have := length_blockHits_le call.input.testcase.crumbs
    have := h.crumbs
    omega
  | edges =>
    have hlen : (call.keys .edges).length = _ := length_zipWith
    have := h.crumbs
    omega
  | handlers => exact (length_map _).trans_lt h.handlers
  | raises => exact (length_map _).trans_lt h.raises
  | topLevels | returnClasses => exact lt_of_le_of_lt Option.length_toList_le htwo
  | mockCalls => exact (length_map _).trans_lt h.mocks

/-! ### Runs -/

namespace CoverageProxy

def run : CoverageProxy → List RecordCall → List CoverageFeedback × CoverageProxy
  | self, [] => ([], self)
  | self, call :: calls =>
    let rest := run (self.record call).2 calls
    ((self.record call).1 :: rest.1, rest.2)

/-- A run inserts the keys of all its calls. -/
theorem mem_run_bits (c : Channel) (key : c.Key) (calls : List RecordCall) :
    ∀ self : CoverageProxy, key ∈ (self.run calls).2.bits c ↔
      key ∈ self.bits c ∨ ∃ call ∈ calls, key ∈ (call.keys c).toFinset := by
  induction calls with
  | nil => simp [run]
  | cons call calls ih =>
    intro self
    show key ∈ ((self.record call).2.run calls).2.bits c ↔ _
    rw [ih, record_bits, insertKeys_fst, Finset.mem_union, exists_mem_cons_iff, or_assoc]

/-- **The counts returned add up to the growth of the set.** -/
theorem card_add_sum_run (c : Channel) (calls : List RecordCall) :
    ∀ self : CoverageProxy, (∀ call ∈ calls, call.input.Short) →
      (self.bits c).card + ((self.run calls).1.map fun feedback ↦ (feedback.count c).toNat).sum =
        ((self.run calls).2.bits c).card := by
  induction calls with
  | nil => exact fun _ _ ↦ rfl
  | cons call calls ih =>
    intro self hshort
    have hrest := ih (self.record call).2 fun other hother ↦ hshort other (.tail _ hother)
    have hcall := card_add_insertKeys_snd (self.bits c)
      (RecordCall.length_keys_lt (hshort call (.head _)) c)
    rw [← record_count, ← record_bits] at hcall
    show (self.bits c).card + (((self.record call).1.count c).toNat + _) = _
    rw [← add_assoc, hcall]
    exact hrest

theorem run_bits_of_perm {calls calls' : List RecordCall}
    (h : (calls'.map (·.input)).Perm (calls.map (·.input))) (self : CoverageProxy) (c : Channel) :
    (self.run calls').2.bits c = (self.run calls).2.bits c := by
  have hkeys {calls calls' : List RecordCall}
      (h : (calls'.map (·.input)).Perm (calls.map (·.input))) (key : c.Key) :
      (∃ call ∈ calls', key ∈ (call.keys c).toFinset) →
        ∃ call ∈ calls, key ∈ (call.keys c).toFinset := by
    rintro ⟨call', hmem', hkey⟩
    obtain ⟨call, hmem, hinput⟩ := mem_map.1 (h.subset (mem_map_of_mem hmem'))
    exact ⟨call, hmem, RecordCall.toFinset_keys hinput c ▸ hkey⟩
  ext key
  rw [mem_run_bits, mem_run_bits]
  exact or_congr_right ⟨hkeys h key, hkeys h.symm key⟩

theorem record_run_eq_empty {calls : List RecordCall} {call : RecordCall}
    (h : call.input ∈ calls.map (·.input)) (self : CoverageProxy) :
    ((self.run calls).2.record call).1 = {} := by
  refine CoverageFeedback.eq_empty fun c ↦ ?_
  obtain ⟨earlier, hmem, hinput⟩ := mem_map.1 h
  rw [record_count]
  refine insertKeys_snd_of_subset fun key hkey ↦ (mem_run_bits c key calls self).2 (.inr ?_)
  exact ⟨earlier, hmem, RecordCall.toFinset_keys hinput c ▸ hkey⟩

/-- **Coverage accounting is exact and independent of the order.** In every channel the counts
returned add up to the snapshot, for inputs whose lists are shorter than `2 ^ 32`; for all inputs
the snapshot is the same in every order, and an input that was recorded before is reported as
nothing new. -/
theorem coverage_accounting_exact (calls : List RecordCall) :
    ((∀ call ∈ calls, call.input.Short) → ∀ c : Channel,
      ((({} : CoverageProxy).run calls).1.map fun feedback ↦ (feedback.count c).toNat).sum =
        (({} : CoverageProxy).run calls).2.snapshot.count c) ∧
    (∀ calls' : List RecordCall, (calls'.map (·.input)).Perm (calls.map (·.input)) →
      (({} : CoverageProxy).run calls').2.snapshot =
        (({} : CoverageProxy).run calls).2.snapshot) ∧
    (∀ call : RecordCall, call.input ∈ calls.map (·.input) →
      ((({} : CoverageProxy).run calls).2.record call).1 = {} ∧
      ((({} : CoverageProxy).run calls).2.record call).1.isEmpty = true) := by
  refine ⟨fun hshort c ↦ ?_, fun calls' hperm ↦ ?_, fun call hcall ↦ ?_⟩
  · have hsum := card_add_sum_run c calls {} hshort
    have hempty : (({} : CoverageProxy).bits c).card = 0 := by cases c <;> rfl
    rw [snapshot_count]
    omega
  · refine CoverageSnapshot.eq_of_count fun c ↦ ?_
    rw [snapshot_count, snapshot_count, run_bits_of_perm hperm]
  · rw [record_run_eq_empty hcall]
    exact ⟨rfl, by decide⟩

/-- Two inputs with one block in common: the counts add up. -/
theorem coverage_accounting_two_inputs :
    ((({} : CoverageProxy).run
        [.ofInput ⟨{ testcaseId := 0, crumbs := [1, 2] }, []⟩,
          .ofInput ⟨{ testcaseId := 1, crumbs := [1, 2, 3] }, []⟩]).1.map
        fun feedback ↦ (feedback.count .edges).toNat).sum =
      (({} : CoverageProxy).run
        [.ofInput ⟨{ testcaseId := 0, crumbs := [1, 2] }, []⟩,
          .ofInput ⟨{ testcaseId := 1, crumbs := [1, 2, 3] }, []⟩]).2.snapshot.count .edges :=
  (coverage_accounting_exact [.ofInput ⟨{ testcaseId := 0, crumbs := [1, 2] }, []⟩,
      .ofInput ⟨{ testcaseId := 1, crumbs := [1, 2, 3] }, []⟩]).1 (by
      intro call hcall
      simp only [mem_cons, not_mem_nil, or_false] at hcall
      obtain rfl | rfl := hcall
      · constructor <;> decide
      · constructor <;> decide) .edges

/-! ### Saturation -/

/-- The signature whose bytes are the digits of a number. -/
def numberedSignature (n : ℕ) : CoverageSignature :=
  ⟨leBytes 32 n, length_leBytes 32 n⟩

theorem numberedSignature_inj {m n : ℕ} (hm : m < 2 ^ 32) (hn : n < 2 ^ 32)
    (h : numberedSignature m = numberedSignature n) : m = n := by
  have hbytes : leBytes 32 m = leBytes 32 n := congrArg CoverageSignature.bytes h
  have hfits {x : ℕ} (hx : x < 2 ^ 32) : x < 256 ^ 32 :=
    lt_trans hx (by decide)
  rw [← leValue_leBytes (hfits hm), hbytes, leValue_leBytes (hfits hn)]

theorem card_numberedSignatures {n : ℕ} (hn : n ≤ 2 ^ 32) :
    ((List.range n).map numberedSignature).toFinset.card = n := by
  rw [toFinset_card_of_nodup, length_map, length_range]
  refine List.Nodup.map_on (fun k hk m hm h ↦ ?_) nodup_range
  exact numberedSignature_inj (lt_of_lt_of_le (mem_range.1 hk) hn)
    (lt_of_lt_of_le (mem_range.1 hm) hn) h

/-- **The counter of one call saturates.** An input with `2 ^ 32` different exception signatures and
nothing else is reported with one signature less than the set then holds. -/
theorem signature_count_saturates :
    ∃ signatures : List CoverageSignature,
      ((({} : CoverageProxy).run [.ofInput ⟨{ testcaseId := 0 }, signatures⟩]).1.map
          fun feedback ↦ (feedback.count .exceptionSignatures).toNat).sum = 2 ^ 32 - 1 ∧
      (({} : CoverageProxy).run [.ofInput ⟨{ testcaseId := 0 }, signatures⟩]).2.snapshot.count
        .exceptionSignatures = 2 ^ 32 := by
  obtain ⟨signatures, hcard⟩ : ∃ signatures : List CoverageSignature,
      signatures.toFinset.card = 2 ^ 32 :=
    ⟨_, card_numberedSignatures le_rfl⟩
  have hset : (insertKeys (∅ : Finset CoverageSignature) signatures).1 = signatures.toFinset := by
    rw [insertKeys_fst, Finset.empty_union]
  refine ⟨signatures, ?_, (congrArg Finset.card hset).trans hcard⟩
  show (insertKeys (∅ : Finset CoverageSignature) signatures).2.toNat + 0 = _
  rw [toNat_insertKeys_snd, hset, Finset.card_empty, hcard]
  rfl

end CoverageProxy

end Bhf.FuzzEngine
