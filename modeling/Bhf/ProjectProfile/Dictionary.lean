import Bhf.Lib.Cut
import Bhf.Lib.Json

/-!
# Layered dictionaries

The dictionaries of a project are merged in their order, and the merged tokens are written as a
dictionary again, one quoted and escaped token a line. Every byte is read back from what it is
written as, so a line gives its token again (`parseAflLine_quoted`).

A dictionary above 16 MiB is refused. The files that are merged keep to this limit, but nothing
keeps their tokens to it once they are together, and an escape takes up to four bytes. **So the
written file is merged to the same tokens exactly if it has at most 16 MiB** (`merge_spec`).
-/

namespace Bhf.ProjectProfile

open List Json

def maxDictionaryBytes : ℕ := 16 * 1024 * 1024

structure MergedDictionary where
  tokens : List Bytes

inductive ProjectError where
  | io (path source : String)
  | invalidDictionary (path detail : String)

/-! ### Writing -/

def escapeByte (b : UInt8) : List Char :=
  if b = 0x22 then ['\\', '"']
  else if b = 0x5c then ['\\', '\\']
  else if b = 0x0a then ['\\', 'n']
  else if b = 0x0d then ['\\', 'r']
  else if b = 0x09 then ['\\', 't']
  else if 0x20 ≤ b ∧ b ≤ 0x7e then [Char.ofUInt8 b]
  else ['\\', 'x', hexDigit (b.toNat / 16), hexDigit (b.toNat % 16)]

/-- A line without its end. -/
def quoted (token : Bytes) : List Char :=
  '"' :: (token.flatMap escapeByte ++ ['"'])

def MergedDictionary.toAflFormat (self : MergedDictionary) : List Char :=
  self.tokens.flatMap fun token ↦ quoted token ++ ['\n']

/-! ### Reading -/

/-- The bytes of a character. -/
def charBytes (c : Char) : Bytes :=
  utf8Bytes (String.ofList [c])

def unescaped : Char → Bytes
  | 'n' => [0x0a]
  | 'r' => [0x0d]
  | 't' => [0x09]
  | '\\' => [0x5c]
  | '"' => [0x22]
  | other => charBytes other

/-- The rest of a token after its opening quote. -/
def parseToken (out : Bytes) : List Char → Except String Bytes
  | [] => .error "unterminated quoted token"
  | ch :: rest =>
    if ch = '"' then .ok out
    else if ch = '\\' then
      match rest with
      | [] => .error "unterminated escape"
      | 'x' :: hi :: lo :: rest =>
        match hexValue hi, hexValue lo with
        | some hi, some lo => parseToken (out ++ [UInt8.ofNat (hi * 16 + lo)]) rest
        | _, _ => .error "invalid hex escape"
      | 'x' :: _ => .error "invalid hex escape"
      | other :: rest => parseToken (out ++ unescaped other) rest
    else parseToken (out ++ charBytes ch) rest

def parseAflLine (line : List Char) : Except String (Option Bytes) :=
  let trimmed := (trim (String.ofList line)).toList
  if trimmed.isEmpty || trimmed.head? = some '#' then .ok none
  else
    match trimmed.dropWhile (· ≠ '"') with
    | [] => .error "expected quoted token"
    | _ :: rest => (parseToken [] rest).map some

/-- The lines of a text: a carriage return before the line break belongs to it. -/
def lines (text : List Char) : List (List Char) :=
  (cutAfter '\n' text).map fun line ↦
    if line.2 ∧ line.1.getLast? = some '\r' then line.1.dropLast else line.1

/-- A file, as far as it can be read. -/
abbrev Files := String → Except String Bytes

def parseDictionaryFile (files : Files) (path : String) : Except ProjectError (List Bytes) :=
  match files path with
  | .error source => .error (.io path source)
  | .ok bytes =>
    if maxDictionaryBytes < bytes.length then
      .error (.invalidDictionary path
        s!"{bytes.length} bytes exceeds the {maxDictionaryBytes / (1024 * 1024)} MiB safety limit")
    else
      match String.fromUTF8? bytes.toByteArray with
      | none => .error (.invalidDictionary path "not valid UTF-8")
      | some text => .ok ((lines text.toList).filterMap fun line ↦
          match parseAflLine line with
          | .ok token => token
          | .error _ => none)

def pushNew (tokens : List Bytes) (token : Bytes) : List Bytes :=
  if token ∈ tokens then tokens else tokens ++ [token]

def merge (files : Files) (paths : List String) : Except ProjectError MergedDictionary := do
  let tokens ← paths.foldlM (fun tokens path ↦
    (parseDictionaryFile files path).map fun parsed ↦ parsed.foldl pushNew tokens) []
  return ⟨tokens⟩

/-! ### Lines read back -/

theorem escapeByte_plain (b : UInt8) : ∀ c ∈ escapeByte b, c ≠ '\n' ∧ c.toNat < 128 := by
  have h : ∀ n : Fin 256, (escapeByte (UInt8.ofFin n)).all
      (fun c ↦ decide (c ≠ '\n' ∧ c.toNat < 128)) := by decide +kernel
  exact fun c hc ↦ of_decide_eq_true (all_eq_true.mp (h b.toFin) c hc)

theorem parseToken_escapeByte (out : Bytes) (b : UInt8) (rest : List Char) :
    parseToken out (escapeByte b ++ rest) = parseToken (out ++ [b]) rest := by
  rw [escapeByte]
  split_ifs with hquote hback hnewline hreturn htab hplain
  iterate 5
    · subst b
      rfl
  · have hne {c : Char} (h : b ≠ c.toUInt8) : Char.ofUInt8 b ≠ c := by
      rintro rfl
      exact h (toUInt8_ofUInt8 b).symm
    have hbytes : charBytes (Char.ofUInt8 b) = [b] := @utf8Bytes_ofList_ascii [b]
      (forall_mem_singleton.mpr (UInt8.lt_of_le_of_lt hplain.2 (by decide)))
    rw [singleton_append, parseToken.eq_def]
    dsimp only
    rw [if_neg (hne (c := '"') hquote), if_neg (hne (c := '\\') hback), hbytes]
  · have hlt := b.toNat_lt
    have hvalue : UInt8.ofNat (b.toNat / 16 * 16 + b.toNat % 16) = b := by
      rw [Nat.div_add_mod', UInt8.ofNat_toNat]
    show (match hexValue (hexDigit (b.toNat / 16)), hexValue (hexDigit (b.toNat % 16)) with
      | some hi, some lo => parseToken (out ++ [UInt8.ofNat (hi * 16 + lo)]) rest
      | _, _ => _) = _
    rw [hexValue_hexDigit _ (by omega), hexValue_hexDigit _ (by omega)]
    dsimp only
    rw [hvalue]

theorem parseToken_flatMap_escapeByte (token out : Bytes) :
    parseToken out (token.flatMap escapeByte ++ ['"']) = .ok (out ++ token) := by
  induction token generalizing out with
  | nil => simp [parseToken]
  | cons b token ih =>
    rw [flatMap_cons, append_assoc, parseToken_escapeByte, ih, append_assoc, singleton_append]

theorem parseAflLine_quoted (token : Bytes) : parseAflLine (quoted token) = .ok (some token) := by
  have hws : isWhitespace '"' = false := rfl
  have htrim : (trim (String.ofList (quoted token))).toList = quoted token := by
    simp [trim, quoted, hws]
  rw [parseAflLine, htrim]
  show (parseToken [] (token.flatMap escapeByte ++ ['"'])).map some = _
  rw [parseToken_flatMap_escapeByte]
  rfl

theorem lines_toAflFormat (tokens : List Bytes) :
    lines (MergedDictionary.toAflFormat ⟨tokens⟩) = tokens.map quoted := by
  rw [lines]
  induction tokens with
  | nil => rfl
  | cons token tokens ih =>
    have hfree : '\n' ∉ quoted token := by
      simpa [quoted] using fun b _ hc ↦ (escapeByte_plain b _ hc).1 rfl
    have hlast : (quoted token).getLast? ≠ some '\r' := by
      rw [quoted, ← cons_append, getLast?_concat]
      decide
    have hcons : MergedDictionary.toAflFormat ⟨token :: tokens⟩ =
        quoted token ++ '\n' :: MergedDictionary.toAflFormat ⟨tokens⟩ := by
      simp [MergedDictionary.toAflFormat]
    rw [hcons, cutAfter_append_cons hfree, map_cons, map_cons, ih, if_neg fun h ↦ hlast h.2]

/-! ### Files merged -/

/-- The bytes of the written dictionary. -/
def MergedDictionary.written (self : MergedDictionary) : Bytes :=
  utf8Bytes (String.ofList self.toAflFormat)

/-- The text is ASCII. -/
theorem length_written (self : MergedDictionary) :
    self.written.length = self.toAflFormat.length := by
  rw [MergedDictionary.written, utf8Bytes_ofList_of_toNat_lt, length_map]
  simp only [MergedDictionary.toAflFormat, quoted, mem_flatMap, mem_append, mem_cons, not_mem_nil,
    or_false]
  rintro c ⟨token, -, (rfl | ⟨b, -, hc⟩ | rfl) | rfl⟩
  · decide
  · exact (escapeByte_plain b c hc).2
  · decide
  · decide

variable {files : Files} {path : String} {tokens : List Bytes}

theorem parseDictionaryFile_written (hread : files path = .ok (MergedDictionary.written ⟨tokens⟩))
    (hsize : (MergedDictionary.written ⟨tokens⟩).length ≤ maxDictionaryBytes) :
    parseDictionaryFile files path = .ok tokens := by
  rw [parseDictionaryFile, hread]
  dsimp only
  rw [if_neg (not_lt.mpr hsize), MergedDictionary.written, fromUTF8?_utf8Bytes]
  simp [lines_toAflFormat, filterMap_map, parseAflLine_quoted]

/-- `dedup` keeps last occurrences, so the first ones from the end. -/
theorem foldl_pushNew (parsed : List Bytes) :
    parsed.foldl pushNew [] = parsed.reverse.dedup.reverse := by
  induction parsed using reverseRecOn with
  | nil => rfl
  | append_singleton parsed token ih =>
    rw [foldl_append, ih, reverse_append, foldl_cons, foldl_nil, pushNew]
    by_cases h : token ∈ parsed <;> simp [h]

section

variable {paths : List String} {parsed : List (List Bytes)}
  (h : Forall₂ (fun path tokens ↦ parseDictionaryFile files path = .ok tokens) paths parsed)
include h

theorem merge_eq_ok : merge files paths = .ok ⟨parsed.flatten.reverse.dedup.reverse⟩ := by
  have hfold : ∀ done, paths.foldlM (fun tokens path ↦ (parseDictionaryFile files path).map
      fun parsed ↦ parsed.foldl pushNew tokens) done = .ok (parsed.flatten.foldl pushNew done) := by
    induction h with
    | nil => exact fun _ ↦ rfl
    | cons hpath _ ih =>
      intro done
      rw [foldlM_cons, hpath, flatten_cons, foldl_append]
      exact ih _
  rw [merge, hfold, foldl_pushNew]
  rfl

theorem merge_of_nodup (hnodup : parsed.flatten.Nodup) :
    merge files paths = .ok ⟨parsed.flatten⟩ := by
  rw [merge_eq_ok h, (nodup_reverse.mpr hnodup).dedup, reverse_reverse]

end

/-- The limit is the only thing in the way of reading a dictionary back. -/
theorem merge_written_iff (hnodup : tokens.Nodup)
    (hread : files path = .ok (MergedDictionary.written ⟨tokens⟩)) :
    merge files [path] = .ok ⟨tokens⟩ ↔
      (MergedDictionary.written ⟨tokens⟩).length ≤ maxDictionaryBytes := by
  constructor
  · intro h
    by_contra hsize
    rw [merge, foldlM_cons, parseDictionaryFile, hread] at h
    simp [not_le.mp hsize, Except.map, bind, Except.bind] at h
  · intro hsize
    rw [merge_of_nodup (.cons (parseDictionaryFile_written hread hsize) .nil) (by simpa),
      flatten_singleton]

/-- **What merging does with the tokens**: those of a dictionary that was written are read back, up
to the limit, and of those of several dictionaries the first occurrences are kept. -/
theorem merge_spec (files : Files) :
    (∀ tokens, (lines (MergedDictionary.toAflFormat ⟨tokens⟩)).map parseAflLine =
      tokens.map fun token ↦ .ok (some token)) ∧
    (∀ tokens path, tokens.Nodup → files path = .ok (MergedDictionary.written ⟨tokens⟩) →
      (merge files [path] = .ok ⟨tokens⟩ ↔
        (MergedDictionary.written ⟨tokens⟩).length ≤ maxDictionaryBytes)) ∧
    ∀ paths parsed,
      Forall₂ (fun path tokens ↦ parseDictionaryFile files path = .ok tokens) paths parsed →
      merge files paths = .ok ⟨parsed.flatten.reverse.dedup.reverse⟩ ∧
        parsed.flatten.reverse.dedup.reverse.Nodup := by
  refine ⟨fun tokens ↦ ?_, fun tokens path ↦ merge_written_iff,
    fun paths parsed h ↦ ⟨merge_eq_ok h, nodup_reverse.mpr (nodup_dedup _)⟩⟩
  simp [lines_toAflFormat, parseAflLine_quoted]

/-- Two written dictionaries of escaped tokens, one of which stands in both. -/
def overlapping : Files := fun path ↦
  .ok (MergedDictionary.written
    (if path = "base" then ⟨[[0x22, 0x0a], [0x00, 0x5c]]⟩ else ⟨[[0x00, 0x5c], [0x61, 0xff]]⟩))

/-- The first is read back, and the shared token is merged once. -/
theorem merge_overlapping :
    merge overlapping ["base"] = .ok ⟨[[0x22, 0x0a], [0x00, 0x5c]]⟩ ∧
      merge overlapping ["base", "local"] =
        .ok ⟨[[0x22, 0x0a], [0x00, 0x5c], [0x61, 0xff]]⟩ := by
  have hparsed : Forall₂ (fun path tokens ↦ parseDictionaryFile overlapping path = .ok tokens)
      ["base", "local"] [[[0x22, 0x0a], [0x00, 0x5c]], [[0x00, 0x5c], [0x61, 0xff]]] :=
    .cons (parseDictionaryFile_written rfl (by decide +kernel))
      (.cons (parseDictionaryFile_written rfl (by decide +kernel)) .nil)
  refine ⟨((merge_spec overlapping).2.1 _ "base" ?_ rfl).mpr (by decide +kernel),
    ((merge_spec overlapping).2.2 _ _ hparsed).1.trans
      (congrArg (Except.ok ∘ MergedDictionary.mk) ?_)⟩
  all_goals decide

/-- Two dictionaries of half the limit are merged to one that is refused when it is merged again. -/
theorem merge_written_refused : ∃ (files : Files) (paths : List String) (merged : MergedDictionary),
    merge files paths = .ok merged ∧
      merge (fun _ ↦ .ok merged.written) ["merged"] ≠ .ok merged := by
  obtain ⟨n, hle, hlt⟩ : ∃ n, n + 4 ≤ maxDictionaryBytes ∧ maxDictionaryBytes < 2 * n + 7 :=
    ⟨2 ^ 23, by decide, by decide⟩
  have hlength (k : ℕ) : (quoted (replicate k 0x61)).length = k + 2 := by
    simp [quoted, flatMap_replicate, show escapeByte 0x61 = ['a'] from rfl]
  have hparsed (path : String) (h : path.length ≤ 1) : parseDictionaryFile
      (fun path ↦ .ok (MergedDictionary.written ⟨[replicate (n + path.length) 0x61]⟩)) path =
        .ok [replicate (n + path.length) 0x61] := by
    refine parseDictionaryFile_written rfl ?_
    simp [length_written, MergedDictionary.toAflFormat, hlength]
    omega
  have hmerged := merge_of_nodup (.cons (hparsed "" (by decide)) (.cons (hparsed "a" le_rfl) .nil))
    (by simp)
  refine ⟨_, _, _, hmerged, fun h ↦ ?_⟩
  have hsize := (merge_written_iff (by simp) rfl).mp h
  have hone : "a".length = 1 := rfl
  simp [length_written, MergedDictionary.toAflFormat, hlength, hone] at hsize
  omega

end Bhf.ProjectProfile
