import Bhf.Lib.Text

/-!
# The bytes behind a finding's identity

An extension finding is named by a digest of its signature inputs, a crash cluster by a digest of
its stack frames. The digest is a parameter; what it is taken of are the strings with a
**separator** between them, the byte `0x1f` for inputs and a line feed for frames.

Neither byte is kept out of the strings, so two lists may share their bytes: the strings determine
the list exactly where the separator is not among the bytes they are drawn from
(`signatureBytes_injOn_iff`).
-/

namespace Bhf.Corpus

open List

variable (sha256 : Bytes → String)

/-! ### Signatures and cluster keys -/

/-- What is hashed for an extension finding. -/
def signatureBytes (signatureInputs : List String) : Bytes :=
  utf8Bytes "extension" ++ signatureInputs.flatMap fun part ↦ 0x1f :: utf8Bytes part

/-- `sha256` is the digest in lower-case hexadecimal. -/
def extensionSignature (signatureInputs : List String) : String :=
  sha256 (signatureBytes signatureInputs)

structure ClusterKey where
  short : String
  full : String
  frames : List String
  fallback : Bool

def clusterKeyVersionPrefix : String := "bhf-cluster-v1\n"

/-- What is hashed for a cluster. -/
def frameBytes (frames : List String) : Bytes :=
  utf8Bytes clusterKeyVersionPrefix ++ [0x0a].intercalate (frames.map utf8Bytes)

def clusterKeyFromFrames (frames : List String) : ClusterKey :=
  if frames.isEmpty then
    { short := String.ofList (replicate 16 '0'), full := String.ofList (replicate 64 '0'),
      frames := [], fallback := true }
  else
    let full := sha256 (frameBytes frames)
    { short := String.ofList (full.toList.take 16), full := full, frames := frames,
      fallback := false }

/-! ### Collisions -/

/-- The lists of strings whose bytes are drawn from a set. -/
def Over (allowed : Set UInt8) : Set (List String) :=
  {parts | ∀ part ∈ parts, ∀ byte ∈ utf8Bytes part, byte ∈ allowed}

theorem signatureBytes_eq_intercalate (parts : List String) :
    signatureBytes parts =
      utf8Bytes "extension" ++ [0x1f].intercalate ([] :: parts.map utf8Bytes) := by
  rw [intercalate_cons_eq_append, nil_append, flatMap_map, signatureBytes]

variable {allowed : Set UInt8}

theorem not_mem_of_mem_over {sep : UInt8} (hsep : sep ∉ allowed) {parts : List String}
    (h : parts ∈ Over allowed) : ∀ bytes ∈ parts.map utf8Bytes, sep ∉ bytes := by
  simp only [mem_map, forall_exists_index, and_imp, forall_apply_eq_imp_iff₂]
  exact fun part hpart hmem ↦ hsep (h part hpart sep hmem)

theorem singleton_mem_over {part : String} {byte : UInt8} (hpart : utf8Bytes part = [byte])
    (h : byte ∈ allowed) : [part] ∈ Over allowed := by
  show ∀ p ∈ [part], ∀ b ∈ utf8Bytes p, b ∈ allowed
  simpa [hpart] using h

theorem empty_pair_mem_over : ["", ""] ∈ Over allowed := by
  show ∀ p ∈ ["", ""], ∀ b ∈ utf8Bytes p, b ∈ allowed
  simp [show utf8Bytes "" = [] by decide]

theorem signatureBytes_injOn (hsep : 0x1f ∉ allowed) : Set.InjOn signatureBytes (Over allowed) := by
  intro xs hxs ys hys heq
  rw [signatureBytes_eq_intercalate, signatureBytes_eq_intercalate] at heq
  have hparts := injOn_intercalate 0x1f ⟨by simp, by simpa using not_mem_of_mem_over hsep hxs⟩
    ⟨by simp, by simpa using not_mem_of_mem_over hsep hys⟩ (append_cancel_left heq)
  exact map_injective_iff.mpr utf8Bytes_injective (cons.inj hparts).2

theorem frameBytes_injOn (hsep : 0x0a ∉ allowed) : Set.InjOn frameBytes (Over allowed \ {[]}) := by
  intro xs hxs ys hys heq
  have hparts := injOn_intercalate 0x0a ⟨by simpa using hxs.2, not_mem_of_mem_over hsep hxs.1⟩
    ⟨by simpa using hys.2, not_mem_of_mem_over hsep hys.1⟩ (append_cancel_left heq)
  exact map_injective_iff.mpr utf8Bytes_injective hparts

/-- **Distinct lists have distinct bytes exactly where no string may hold the separator**, for the
inputs and for the frames each with bytes of their own. -/
theorem signatureBytes_injOn_iff (inputs frames : Set UInt8) :
    (Set.InjOn signatureBytes (Over inputs) ↔ 0x1f ∉ inputs) ∧
      (Set.InjOn frameBytes (Over frames \ {[]}) ↔ 0x0a ∉ frames) := by
  refine ⟨⟨fun hinj hmem ↦ ?_, signatureBytes_injOn⟩, ⟨fun hinj hmem ↦ ?_, frameBytes_injOn⟩⟩
  -- One string that is the separator, and two empty strings with it between them.
  · have heq : signatureBytes ["\x1f"] = signatureBytes ["", ""] := by decide
    have := hinj (singleton_mem_over (by decide) hmem) empty_pair_mem_over heq
    simp at this
  · have heq : frameBytes ["\n"] = frameBytes ["", ""] := by decide
    have := hinj ⟨singleton_mem_over (by decide) hmem, by simp⟩ ⟨empty_pair_mem_over, by simp⟩ heq
    simp at this

/-- Both separators occur in strings. -/
theorem signatureBytes_separator_collides :
    signatureBytes ["\x1f"] = signatureBytes ["", ""] ∧
      frameBytes ["\n"] = frameBytes ["", ""] ∧ (["\x1f"] : List String) ≠ ["", ""] := by
  decide

end Bhf.Corpus
