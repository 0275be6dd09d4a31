import Bhf.Results.Migrate

/-!
# Processes that migrate the same work directory

Any number of processes call `migrate_legacy` on one work directory, and their file-system calls
interleave in every possible way.

If there is no `results/findings` at the start, all goes well: the target can only appear by a
rename, and then the legacy directory is gone, which is what every process asks for before it calls
anything an error. The proof is by rely and guarantee. For a process the world is in one of three
phases: nobody has moved the directory yet (`Waiting`), a peer has (`Lost`), or it has itself
(`Won`). **The move is the only change of phase**, so each function of the source has a
specification in terms of phases, which the peers cannot spoil.

An empty `results/findings` has to be removed first, and there the question that is asked is too
late for its answer: **between the removal and the move, the target is missing and the legacy
directory still there**. A second process whose removal falls in that gap takes its failure for an
I/O error. So with an empty target at the start the migration is safe for a single process only.
-/

namespace Bhf.Results

open DirTree Prog List

/-! ### Safe migrations -/

/-- What stands below a directory, by the place relative to it. -/
abbrev Contents := Place → Option Entry

def isReplay : Place → Bool
  | [_, "replay.py"] => true
  | _ => false

/-- The contents without the generated scripts of the finding directories. -/
def withoutReplays (contents : Contents) : Contents := fun r ↦
  if isReplay r && isFile (contents r) then none else contents r

/-- Nothing stands in the way of a migration. -/
structure Undisturbed (fs : DirTree) : Prop where
  /-- The index files are no directories. -/
  derived : ∀ p ∈ legacyDerived, fs.entry p ≠ some .dir
  /-- Nothing stands in the way of those in `auto`. -/
  auto : isFile (fs.entry ["auto"]) = false
  /-- Nor of the target directory. -/
  results : isFile (fs.entry resultsDir) = false

/-- The processes before the first call. -/
def launch (n : ℕ) (fs : DirTree) :
    Config (Fin n) DirTree Reply (Except ResultsError MigrationOutcome) :=
  ⟨fun _ ↦ migrateLegacy, fs⟩

/-- **Every interleaving of `n` migrations goes well**: no call returns an error, and once all have
returned, exactly one of them has migrated, the legacy directory is gone and its contents stand at
the target, without the generated scripts. -/
def Safe (n : ℕ) (fs : DirTree) : Prop :=
  ∀ cfg, Reaches (fun _ ↦ serve) (launch n fs) cfg →
    (∀ i r, cfg.procs i = .ret r → ∃ outcome, r = .ok outcome) ∧
      ((∀ i, ∃ r, cfg.procs i = .ret r) →
        (∃! i, cfg.procs i = .ret (.ok .migrated)) ∧
          cfg.shared.entry legacyFindingsDir = none ∧
          ∀ r, cfg.shared.entry (findingsDir ++ r) =
            withoutReplays (fun r ↦ fs.entry (legacyFindingsDir ++ r)) r)

/-! ### Phases -/

variable {ι : Type}

/-- The work directory, and the process that has moved the legacy directory. -/
abbrev World (ι : Type) := DirTree × Option ι

/-- A successful rename makes the process the mover. -/
def mover (i : ι) : (c : Call) → Reply c → Option ι → Option ι
  | .rename _ _, .ok (), _ => some i
  | .rename _ _, .error _, g => g
  | .symlinkMetadata _, _, g | .pathExists _, _, g | .isDir _, _, g | .readDir _, _, g
  | .removeFile _, _, g | .removeDir _, _, g | .createDir _, _, g => g

def act (i : ι) : (c : Call) → World ι → Reply c × World ι :=
  withGhost (fun _ ↦ serve) mover i

variable {fs' fs : DirTree} {p : Place} {n : ℕ}

theorem act_eq {i : ι} {w : World ι} {c : Call} {reply : Reply c} (h : serve c w.1 = (reply, fs')) :
    act i c w = (reply, fs', mover i c reply w.2) := by
  simp only [act, withGhost, h]

/-- Nobody has moved the legacy directory. -/
structure Waiting (contents : Contents) (w : World ι) : Prop where
  /-- No process has won. -/
  mover : w.2 = none
  /-- The legacy directory is as it was. -/
  legacy : ∀ r, w.1.entry (legacyFindingsDir ++ r) = contents r
  /-- The target is free. -/
  target : w.1.entry findingsDir = none

/-- A peer has moved the legacy directory. -/
structure Lost (i : ι) (w : World ι) : Prop where
  /-- Another process has won. -/
  mover : ∃ j, j ≠ i ∧ w.2 = some j
  /-- The legacy directory is gone. -/
  legacy : w.1.entry legacyFindingsDir = none
  /-- The target is there. -/
  target : w.1.entry findingsDir = some .dir

/-- The process has moved the legacy directory. -/
structure Won (i : ι) (contents : Contents) (w : World ι) : Prop where
  /-- This process has won. -/
  mover : w.2 = some i
  /-- The legacy directory is gone. -/
  legacy : w.1.entry legacyFindingsDir = none
  /-- The contents have moved. -/
  target : ∀ r, w.1.entry (findingsDir ++ r) = contents r

/-- What a process relies on: the others may move the legacy directory, and spoil nothing else. -/
structure Rely (contents : Contents) (i : ι) (w w' : World ι) : Prop where
  /-- The way stays free. -/
  calm : Undisturbed w.1 → Undisturbed w'.1
  /-- A target directory stays. -/
  ready : w.1.entry resultsDir = some .dir → w'.1.entry resultsDir = some .dir
  /-- An open race stays open or is lost. -/
  waiting : Waiting contents w → Waiting contents w' ∨ Lost i w'
  /-- A lost race stays lost. -/
  lost : Lost i w → Lost i w'
  /-- A won race stays won. -/
  won : ∀ c, Won i c w → Won i c w'

theorem Rely.refl (contents : Contents) (i : ι) (w : World ι) : Rely contents i w w :=
  ⟨id, id, .inl, id, fun _ ↦ id⟩

theorem Rely.trans {contents : Contents} {i : ι} {w₁ w₂ w₃ : World ι} (h : Rely contents i w₁ w₂)
    (h' : Rely contents i w₂ w₃) : Rely contents i w₁ w₃ where
  calm := h'.calm ∘ h.calm
  ready := h'.ready ∘ h.ready
  waiting hw := (h.waiting hw).elim h'.waiting fun hlost ↦ .inr (h'.lost hlost)
  lost := h'.lost ∘ h.lost
  won c := h'.won c ∘ h.won c

/-- What a process guarantees is what its peers rely on. -/
def Guar (contents : Contents) (i : ι) (w w' : World ι) : Prop :=
  ∀ j, j ≠ i → Rely contents j w w'

/-- The program does its part as process `i` and ends in `post`. -/
def Does (contents : Contents) (i : ι) {α : Type} (post : α → World ι → Prop) (p : Fs α)
    (w : World ι) : Prop :=
  p.Meets (act i) (Rely contents i) (Guar contents i) post w

/-- The race is open or lost. -/
structure Racing (contents : Contents) (i : ι) (w : World ι) : Prop where
  /-- The way is free. -/
  calm : Undisturbed w.1
  /-- The race is open or lost. -/
  phase : Waiting contents w ∨ Lost i w

variable {contents : Contents} {i : ι} {w w' : World ι} {α β : Type}

theorem Racing.stable (h : Racing contents i w) (hw : Rely contents i w w') :
    Racing contents i w' :=
  ⟨hw.calm h.calm, h.phase.elim hw.waiting fun hlost ↦ .inr (hw.lost hlost)⟩

/-! ### What the calls do to the world -/

theorem Undisturbed.congr (h : Undisturbed fs)
    (hsame : ∀ q ∈ ["auto"] :: resultsDir :: legacyDerived, fs'.entry q = fs.entry q) :
    Undisturbed fs' := by
  simp only [forall_mem_cons] at hsame
  obtain ⟨hauto, hresults, hderived⟩ := hsame
  exact ⟨fun p hp ↦ hderived p hp ▸ h.derived p hp, hauto ▸ h.auto, hresults ▸ h.results⟩

/-- A change away from the two directories is within every rely. -/
theorem rely_of_kept {g : Option ι} (j : ι) (hcalm : Undisturbed fs → Undisturbed fs')
    (hready : fs.entry resultsDir = some .dir → fs'.entry resultsDir = some .dir)
    (hlegacy : ∀ r, fs'.entry (legacyFindingsDir ++ r) = fs.entry (legacyFindingsDir ++ r))
    (htarget : ∀ r, fs'.entry (findingsDir ++ r) = fs.entry (findingsDir ++ r)) :
    Rely contents j (fs, g) (fs', g) where
  calm := hcalm
  ready := hready
  waiting h := .inl ⟨h.mover, fun r ↦ (hlegacy r).trans (h.legacy r), (htarget []).trans h.target⟩
  lost h := ⟨h.mover, (hlegacy []).trans h.legacy, (htarget []).trans h.target⟩
  won _ h := ⟨h.mover, (hlegacy []).trans h.legacy, fun r ↦ (htarget r).trans (h.target r)⟩

theorem head_of_mem_legacyDerived (hp : p ∈ legacyDerived) :
    p.head? ≠ some "findings" ∧ p.head? ≠ some "results" := by
  revert p
  decide

theorem rely_removeDerived (hp : p ∈ legacyDerived) (j : ι) (w : World ι) :
    Rely contents j w ((w.1.removeFile p).2, w.2) := by
  obtain ⟨hlegacy, hresults⟩ := head_of_mem_legacyDerived hp
  have hkept (n : String) (r : Place) (hn : p.head? ≠ some n) :
      (w.1.removeFile p).2.entry (n :: r) = w.1.entry (n :: r) := by
    rw [removeFile_entry, if_neg]
    rintro ⟨rfl, -⟩
    exact hn rfl
  refine rely_of_kept j (fun h ↦ ⟨fun q hq ↦ ?_, ?_, ?_⟩) (hkept _ [] hresults).trans
    (fun r ↦ hkept _ r hlegacy) fun r ↦ hkept _ _ hresults
  · rw [removeFile_entry]
    split <;> simp [h.derived q hq]
  · rw [removeFile_entry]
    split <;> simp [h.auto]
  · exact (congrArg isFile (hkept _ [] hresults)).trans h.results

theorem removeDerived_reply (hp : p ∈ legacyDerived) (hcalm : Undisturbed fs) :
    (fs.removeFile p).1 = .ok () ∨ (fs.removeFile p).1 = .error .notFound := by
  have hall : ∀ p ∈ legacyDerived, ∀ q ∈ p.inits, q = [] ∨ q = ["auto"] ∨ q = p := by decide
  rw [removeFile_reply]
  split
  · next h =>
    refine .inr (congrArg _ (missing_eq_notFound fun q hq ↦ ?_))
    rcases hall p hp q ((mem_inits q p).2 hq) with rfl | rfl | rfl
    · rw [fs.root_dir, isFile_dir]
    · exact hcalm.auto
    · rw [h, isFile_none]
  · next h => exact absurd h (hcalm.derived p hp)
  · exact .inl rfl

theorem rely_createResults {g : Option ι} (j : ι)
    (h : ∀ q, fs'.entry q = if q = resultsDir then some .dir else fs.entry q) :
    Rely contents j (fs, g) (fs', g) := by
  have hother (q : Place) (hq : q ≠ resultsDir) : fs'.entry q = fs.entry q := by
    rw [h, if_neg hq]
  refine rely_of_kept j (fun hcalm ↦ ⟨fun p hp ↦ ?_, ?_, ?_⟩) (fun _ ↦ ?_)
    (fun r ↦ hother _ (by simp [legacyFindingsDir, resultsDir]))
    fun r ↦ hother _ (by simp [findingsDir, resultsDir])
  · rw [hother p (by rintro rfl; exact (head_of_mem_legacyDerived hp).2 rfl)]
    exact hcalm.derived p hp
  · rw [hother _ (by decide)]
    exact hcalm.auto
  · rw [h, if_pos rfl, isFile_dir]
  · rw [h, if_pos rfl]

/-- The rename moves everything from the legacy directory to the target. -/
theorem rename_waiting (hw : Waiting contents w) (hdir : contents [] = some .dir)
    (hready : w.1.entry resultsDir = some .dir) :
    (w.1.rename legacyFindingsDir findingsDir).1 = .ok () ∧
      Won i contents ((w.1.rename legacyFindingsDir findingsDir).2, some i) ∧
      Guar contents i w ((w.1.rename legacyFindingsDir findingsDir).2, some i) := by
  have hold : w.1.entry legacyFindingsDir = some .dir := (hw.legacy []).trans hdir
  obtain ⟨hreply, hentry⟩ := rename_of_free hold
    (by decide : findingsDir ≠ []) hready (by decide) hw.target
  set fs' := (w.1.rename legacyFindingsDir findingsDir).2
  have hlegacy : fs'.entry legacyFindingsDir = none := by
    rw [hentry, movedEntry_of_not (by decide), if_pos (by decide)]
  have htarget (r : Place) : fs'.entry (findingsDir ++ r) = contents r := by
    rw [hentry, movedEntry_append, hw.legacy]
  have hother (q : Place) (hq : ¬findingsDir <+: q) (hq' : ¬legacyFindingsDir <+: q) :
      fs'.entry q = w.1.entry q := by
    rw [hentry, movedEntry_of_not hq, if_neg hq']
  -- For a peer nothing changes but that there is a mover now, and that it is not the peer.
  refine ⟨hreply, ⟨rfl, hlegacy, htarget⟩, fun j hj ↦ ⟨fun hcalm ↦ ?_, fun h ↦ ?_,
    fun _ ↦ .inr ?_, fun h ↦ ?_, fun c h ↦ ?_⟩⟩
  · have hapart : ∀ q ∈ ["auto"] :: resultsDir :: legacyDerived,
        ¬findingsDir <+: q ∧ ¬legacyFindingsDir <+: q := by decide
    exact hcalm.congr fun q hq ↦ hother q (hapart q hq).1 (hapart q hq).2
  · rw [hother _ (by decide) (by decide)]
    exact h
  · exact ⟨⟨i, hj.symm, rfl⟩, hlegacy, (htarget []).trans hdir⟩
  · obtain ⟨k, -, hk⟩ := h.mover
    simp [hw.mover] at hk
  · have := h.mover
    simp [hw.mover] at this

/-- The mover deletes one generated script. -/
theorem removeReplay_won (hw : Won i contents w) (n : String) :
    Won i (fun r ↦ if r = [n, "replay.py"] ∧ isFile (contents r) then none else contents r)
        ((w.1.removeFile (findingsDir ++ [n, "replay.py"])).2, w.2) ∧
      ∀ original,
        Guar original i w ((w.1.removeFile (findingsDir ++ [n, "replay.py"])).2, w.2) := by
  set p := findingsDir ++ [n, "replay.py"] with hp
  have hkept (q : Place) (hq : q ≠ p) : (w.1.removeFile p).2.entry q = w.1.entry q := by
    rw [removeFile_entry, if_neg fun h ↦ hq h.1]
  have hlegacy : (w.1.removeFile p).2.entry legacyFindingsDir = none := by
    rw [hkept _ (by simp [hp, legacyFindingsDir, findingsDir]), hw.legacy]
  refine ⟨⟨hw.mover, hlegacy, fun r ↦ ?_⟩, fun original j hj ↦ ⟨fun hcalm ↦ ?_,
    fun h ↦ ?_, fun h ↦ ?_, fun h ↦ ?_, fun c h ↦ ?_⟩⟩
  · rw [removeFile_entry, hp, hw.target, hw.target]
    by_cases hr : r = [n, "replay.py"] <;> simp [hr]
  · have hshort : ∀ q ∈ ["auto"] :: resultsDir :: legacyDerived, q.length < 4 := by decide
    exact hcalm.congr fun q hq ↦ hkept q fun heq ↦
      absurd (hshort q hq) (by simp [heq, hp, findingsDir])
  · rw [hkept _ (by simp [hp, findingsDir, resultsDir])]
    exact h
  · have := h.mover
    simp [hw.mover] at this
  · exact ⟨h.mover, hlegacy, by rw [hkept _ (by simp [hp, findingsDir]), h.target]⟩
  · have hj' := h.mover
    rw [hw.mover] at hj'
    exact absurd (Option.some.inj hj').symm hj

/-! ### The functions of the source -/

variable {post : β → World ι → Prop}

theorem Does.bind {mid : α → World ι → Prop} {p : Fs α} {f : α → Fs β}
    (hp : Does contents i mid p w) (hf : ∀ a w, mid a w → Does contents i post (f a) w) :
    Does contents i post (p >>= f) w :=
  Prog.Meets.bind (Rely.refl contents i) hp hf

/-- A call that looks and does not touch. -/
theorem does_query (c : Call) {f : Reply c → Fs β} (hserve : ∀ fs, (serve c fs).2 = fs)
    (hmover : ∀ r g, mover i c r g = g)
    (h : ∀ w', Rely contents i w w' → Does contents i post (f (serve c w'.1).1) w') :
    Does contents i post (perform c >>= f) w := by
  refine Prog.Meets.perform fun w' hw ↦ ?_
  have hsame : (act i c w').2 = w' := Prod.ext (hserve w'.1) (hmover _ w'.2)
  rw [hsame]
  exact ⟨fun j _ ↦ Rely.refl contents j w', h w' hw⟩

/-- A call with its reply and what it leaves behind. -/
theorem does_call (c : Call) {f : Reply c → Fs β}
    (h : ∀ w', Rely contents i w w' → ∃ reply w'', act i c w' = (reply, w'') ∧
      Guar contents i w' w'' ∧ Does contents i post (f reply) w'') :
    Does contents i post (perform c >>= f) w := by
  refine Prog.Meets.perform fun w' hw ↦ ?_
  obtain ⟨reply, w'', hact, hguar, hrest⟩ := h w' hw
  rw [hact]
  exact ⟨hguar, hrest⟩

theorem does_ret {a : β} (h : ∀ w', Rely contents i w w' → post a w') :
    Does contents i post (pure a) w :=
  h

theorem peerMigrated_lost (h : Lost i w) :
    Does contents i (fun b w' ↦ b = true ∧ Lost i w') (peerMigrated legacyFindingsDir) w := by
  refine does_query _ (fun _ ↦ rfl) (fun _ _ ↦ rfl) fun w' hw ↦ ?_
  rw [serve_pathExists_of_none (hw.lost h).legacy]
  exact does_ret fun w'' hw' ↦ ⟨rfl, hw'.lost (hw.lost h)⟩

theorem isNonemptyDir_lost (h : Lost i w) :
    Does contents i (fun _ w' ↦ Lost i w') (isNonemptyDir findingsDir) w := by
  refine does_query _ (fun _ ↦ rfl) (fun _ _ ↦ rfl) fun w' hw ↦ ?_
  have hret (b : Bool) : Does contents i (fun _ w' ↦ Lost i w') (pure b) w' :=
    does_ret fun w'' hw' ↦ hw'.lost (hw.lost h)
  generalize (serve (.readDir findingsDir) w'.1).1 = reply
  match reply with
  | .ok (_ :: _) => exact hret true
  | .ok [] | .error _ => exact hret false

/-- Without a target at the start, there is nothing to reclaim until the race is lost. -/
theorem reclaimTarget_racing (h : Racing contents i w) :
    Does contents i
      (fun r w' ↦ (r = .ok .proceed ∧ Racing contents i w') ∨ (r = .ok .peerMigrated ∧ Lost i w'))
      (reclaimTarget legacyFindingsDir findingsDir) w := by
  refine does_query _ (fun _ ↦ rfl) (fun _ _ ↦ rfl) fun w' hw ↦ ?_
  have h' := h.stable hw
  rcases h'.phase with hwaiting | hlost
  · rw [serve_pathExists_of_none hwaiting.target]
    exact does_ret fun w'' hw' ↦ .inl ⟨rfl, h'.stable hw'⟩
  · rw [serve_pathExists_of_some hlost.target]
    refine (isNonemptyDir_lost hlost).bind fun b w hlost ↦ ?_
    cases b with
    | true | false =>
      refine (peerMigrated_lost hlost).bind fun b w hb ↦ ?_
      obtain ⟨rfl, hlost⟩ := hb
      exact does_ret fun w' hw ↦ .inr ⟨rfl, hw.lost hlost⟩

theorem removeDerived_racing {ps : List Place} (hps : ∀ p ∈ ps, p ∈ legacyDerived)
    (h : Racing contents i w) :
    Does contents i (fun r w' ↦ r = .ok () ∧ Racing contents i w') (removeDerived ps) w := by
  induction ps generalizing w with
  | nil => exact does_ret fun w' hw ↦ ⟨rfl, h.stable hw⟩
  | cons p ps ih =>
    obtain ⟨hp, hps⟩ := forall_mem_cons.1 hps
    refine does_call (.removeFile p) fun w' hw ↦ ?_
    have hnext : Racing contents i ((w'.1.removeFile p).2, w'.2) :=
      (h.stable hw).stable (rely_removeDerived hp i w')
    rcases removeDerived_reply hp (h.stable hw).calm with hreply | hreply
    all_goals exact ⟨_, _, act_eq (Prod.ext hreply rfl), fun j _ ↦ rely_removeDerived hp j w',
      ih hps hnext⟩

theorem createDirAll_racing (h : Racing contents i w) :
    Does contents i
      (fun r w' ↦ r = .ok () ∧ Racing contents i w' ∧ w'.1.entry resultsDir = some .dir)
      (Fs.createDirAll resultsDir) w := by
  refine does_call (.createDir resultsDir) fun w' hw ↦ ?_
  have h' := h.stable hw
  cases hentry : w'.1.entry resultsDir with
  | none =>
    have hcreate : (w'.1.createDir resultsDir).1 = .ok () ∧ ∀ q,
        (w'.1.createDir resultsDir).2.entry q =
          if q = resultsDir then some .dir else w'.1.entry q :=
      createDir_of_none (d := []) hentry w'.1.root_dir
    have hrely (j : ι) : Rely contents j w' ((w'.1.createDir resultsDir).2, w'.2) :=
      rely_createResults j hcreate.2
    refine ⟨.ok (), _, act_eq (Prod.ext hcreate.1 rfl), fun j _ ↦ hrely j, ?_⟩
    refine does_ret fun w'' hw' ↦ ⟨rfl, (h'.stable (hrely i)).stable hw', hw'.ready ?_⟩
    exact (hcreate.2 _).trans (if_pos rfl)
  | some e =>
    obtain rfl : e = .dir := by
      cases e with
      | dir => rfl
      | file content => exact absurd h'.calm.results (by simp [hentry])
    refine ⟨.error .alreadyExists, w', ?_, fun j _ ↦ Rely.refl contents j w', ?_⟩
    · exact act_eq (createDir_of_some hentry)
    · refine does_query (.isDir resultsDir) (fun _ ↦ rfl) (fun _ _ ↦ rfl) fun w'' hw' ↦ ?_
      have hready := hw'.ready hentry
      have hdir : (serve (.isDir resultsDir) w''.1).1 = true := decide_eq_true hready
      rw [hdir]
      exact does_ret fun w₃ hw₃ ↦ ⟨rfl, (h'.stable hw').stable hw₃, hw₃.ready hready⟩

/-- Either the process moves the directory, or a peer has. -/
theorem renameOrDetectPeer_racing (hdir : contents [] = some .dir) (h : Racing contents i w)
    (hready : w.1.entry resultsDir = some .dir) :
    Does contents i
      (fun r w' ↦ (r = .ok .migrated ∧ Won i contents w') ∨ (r = .ok .notNeeded ∧ Lost i w'))
      (renameOrDetectPeer legacyFindingsDir findingsDir) w := by
  refine does_call (.rename legacyFindingsDir findingsDir) fun w' hw ↦ ?_
  rcases (h.stable hw).phase with hwaiting | hlost
  · obtain ⟨hreply, hwon, hguar⟩ := rename_waiting hwaiting hdir (hw.ready hready) (i := i)
    refine ⟨.ok (), _, act_eq (Prod.ext hreply rfl), hguar, ?_⟩
    exact does_ret fun w'' hw' ↦ .inl ⟨rfl, hw'.won _ hwon⟩
  · refine ⟨.error _, w', act_eq (rename_of_none hlost.legacy),
      fun j _ ↦ Rely.refl contents j w', ?_⟩
    refine (peerMigrated_lost hlost).bind fun b w hb ↦ ?_
    obtain ⟨rfl, hlost⟩ := hb
    exact does_ret fun w' hw ↦ .inr ⟨rfl, hw.lost hlost⟩

/-- The contents without the scripts of some of the findings. -/
def withoutReplaysOf (ns : List String) (contents : Contents) : Contents := fun r ↦
  if r ∈ ns.map (fun n ↦ [n, "replay.py"]) ∧ isFile (contents r) = true then none else contents r

theorem withoutReplaysOf_cons (n : String) (ns : List String) (contents : Contents) :
    withoutReplaysOf (n :: ns) contents = withoutReplaysOf ns fun r ↦
      if r = [n, "replay.py"] ∧ isFile (contents r) then none else contents r := by
  funext r
  by_cases hr : r = [n, "replay.py"]
  · by_cases hfile : isFile (contents r) <;> simp [withoutReplaysOf, hr, hr ▸ hfile]
  · simp [withoutReplaysOf, hr]

theorem removeReplays_won {ns : List String} {moved : Contents} (h : Won i moved w) :
    Does contents i (fun _ w' ↦ Won i (withoutReplaysOf ns moved) w')
      (removeReplays findingsDir ns) w := by
  induction ns generalizing w moved with
  | nil =>
    have hnil : withoutReplaysOf [] moved = moved := by
      funext r
      simp [withoutReplaysOf]
    rw [hnil]
    exact does_ret fun w' hw ↦ hw.won _ h
  | cons n ns ih =>
    refine does_call (.removeFile (findingsDir ++ [n, "replay.py"])) fun w' hw ↦ ?_
    obtain ⟨hwon, hguar⟩ := removeReplay_won (hw.won _ h) n
    refine ⟨_, _, act_eq rfl, hguar contents, ?_⟩
    rw [withoutReplaysOf_cons]
    exact ih hwon

/-- The listing of the target names every finding with a script. -/
theorem withoutReplaysOf_names (h : Won i contents w) :
    withoutReplaysOf (w.1.names findingsDir) contents = withoutReplays contents := by
  funext r
  by_cases hfile : isFile (contents r)
  · have hiff : r ∈ (w.1.names findingsDir).map (fun n ↦ [n, "replay.py"]) ↔ isReplay r := by
      constructor
      · intro hmem
        obtain ⟨n, -, rfl⟩ := mem_map.1 hmem
        rfl
      · intro hreplay
        unfold isReplay at hreplay
        split at hreplay
        · next n =>
          refine mem_map.2 ⟨n, ?_, rfl⟩
          have hsome : w.1.entry ((findingsDir ++ [n]) ++ ["replay.py"]) ≠ none := by
            rw [append_assoc, h.target]
            intro (hnone : contents [n, "replay.py"] = none)
            simp [hnone] at hfile
          rw [w.1.mem_names, w.1.parent_dir _ _ hsome]
          simp
        · simp at hreplay
    by_cases hreplay : isReplay r
    · simp only [withoutReplaysOf, withoutReplays, hiff, hreplay, hfile, and_self, Bool.and_self]
    · simp [withoutReplaysOf, withoutReplays, hiff, hreplay]
  · simp [withoutReplaysOf, withoutReplays, hfile]

/-- What a migration returns tells how the race went. -/
def Outcome (contents : Contents) (i : ι) : Except ResultsError MigrationOutcome → World ι → Prop
  | .ok .migrated, w => Won i (withoutReplays contents) w
  | .ok .notNeeded, w => Lost i w
  | .error _, _ => False

theorem moveFindings_racing (hdir : contents [] = some .dir) (h : Racing contents i w) :
    Does contents i (Outcome contents i) (moveFindings legacyFindingsDir findingsDir) w := by
  refine (removeDerived_racing (fun _ hp ↦ hp) h).bind fun r w hr ↦ ?_
  obtain ⟨rfl, h⟩ := hr
  refine (createDirAll_racing h).bind fun r w hr ↦ ?_
  obtain ⟨rfl, h, hready⟩ := hr
  refine (renameOrDetectPeer_racing hdir h hready).bind fun r w hr ↦ ?_
  rcases hr with ⟨rfl, hwon⟩ | ⟨rfl, hlost⟩
  · refine does_query (.readDir findingsDir) (fun _ ↦ rfl) (fun _ _ ↦ rfl) fun w' hw ↦ ?_
    have hwon' := hw.won _ hwon
    have htarget : w'.1.entry findingsDir = some .dir := (hwon'.target []).trans hdir
    rw [serve_readDir_of_dir htarget]
    refine (removeReplays_won hwon').bind fun _ w'' hwon'' ↦ does_ret fun w₃ hw₃ ↦ ?_
    rw [withoutReplaysOf_names hwon'] at hwon''
    exact hw₃.won _ hwon''
  · exact does_ret fun w' hw ↦ hw.lost hlost

theorem migrateLegacy_racing (hdir : contents [] = some .dir) (h : Racing contents i w) :
    Does contents i (Outcome contents i) migrateLegacy w := by
  refine does_query (.symlinkMetadata legacyFindingsDir) (fun _ ↦ rfl) (fun _ _ ↦ rfl)
    fun w' hw ↦ ?_
  have h' := h.stable hw
  rcases h'.phase with hwaiting | hlost
  · have hlegacy : w'.1.entry legacyFindingsDir = some .dir := (hwaiting.legacy []).trans hdir
    rw [serve_symlinkMetadata_of_some hlegacy]
    refine (reclaimTarget_racing h').bind fun r w hr ↦ ?_
    rcases hr with ⟨rfl, h⟩ | ⟨rfl, hlost⟩
    · exact moveFindings_racing hdir h
    · exact does_ret fun w' hw ↦ hw.lost hlost
  · have hmeta : (serve (.symlinkMetadata legacyFindingsDir) w'.1).1 = .error .notFound := by
      rw [serve, hlost.legacy]
      refine congrArg Except.error (missing_eq_notFound fun q hq ↦ ?_)
      have hcases : ∀ q ∈ legacyFindingsDir.inits, q = [] ∨ q = legacyFindingsDir := by decide
      rcases hcases q ((mem_inits q _).2 hq) with rfl | rfl
      · rw [w'.1.root_dir, isFile_dir]
      · rw [hlost.legacy, isFile_none]
    rw [hmeta]
    exact does_ret fun w'' hw' ↦ hw'.lost hlost

/-! ### Many processes without a target -/

/-- What the outcomes of all processes say together. -/
theorem migrated_of_outcomes {g : Option (Fin (n + 1))}
    {results : Fin (n + 1) → Except ResultsError MigrationOutcome}
    (h : ∀ i, Outcome contents i (results i) (fs', g)) :
    (∃! i, results i = .ok .migrated) ∧ fs'.entry legacyFindingsDir = none ∧
      ∀ r, fs'.entry (findingsDir ++ r) = withoutReplays contents r := by
  have hwon (i : Fin (n + 1)) (hi : results i = .ok .migrated) :
      Won i (withoutReplays contents) (fs', g) := by
    have hi' := h i
    rwa [hi] at hi'
  have hcases (i : Fin (n + 1)) : results i = .ok .migrated ∨ Lost i (fs', g) := by
    have hi := h i
    match hr : results i with
    | .ok .migrated => exact .inl rfl
    | .ok .notNeeded =>
      rw [hr] at hi
      exact .inr hi
    | .error e =>
      rw [hr] at hi
      exact hi.elim
  -- Process 0 has returned, so somebody is the mover.
  obtain ⟨j, hj⟩ : ∃ j, g = some j := by
    rcases hcases 0 with hmigrated | hlost
    · exact ⟨0, (hwon 0 hmigrated).mover⟩
    · obtain ⟨j, -, hj⟩ := hlost.mover
      exact ⟨j, hj⟩
  have hmigrated : results j = .ok .migrated := by
    rcases hcases j with hmigrated | hlost
    · exact hmigrated
    · obtain ⟨k, hk, hkg⟩ := hlost.mover
      exact absurd (Option.some.inj (hkg.symm.trans hj)) hk
  refine ⟨⟨j, hmigrated, fun i hi ↦ ?_⟩, (hwon j hmigrated).legacy, (hwon j hmigrated).target⟩
  exact Option.some.inj ((hwon i hi).mover.symm.trans hj)

/-- Safety follows if every process meets its outcome, whatever the relies are. -/
theorem safe_of_meets (rely guar : Fin (n + 1) → World _ → World _ → Prop)
    (hrefl : ∀ i w, rely i w w) (htrans : ∀ i w₁ w₂ w₃, rely i w₁ w₂ → rely i w₂ w₃ → rely i w₁ w₃)
    (hguar : ∀ i j w w', i ≠ j → guar j w w' → rely i w w')
    (h : ∀ i, migrateLegacy.Meets (act i) (rely i) (guar i)
      (Outcome (fun r ↦ fs.entry (legacyFindingsDir ++ r)) i) (fs, none)) :
    Safe (n + 1) fs := by
  intro cfg hreach
  obtain ⟨g, hghost⟩ := hreach.withGhost mover none
  have houtcome (i : Fin (n + 1)) (r : Except ResultsError MigrationOutcome)
      (hr : cfg.procs i = .ret r) :
      Outcome (fun r ↦ fs.entry (legacyFindingsDir ++ r)) i r (cfg.shared, g) :=
    (meets_of_reaches hrefl htrans hguar h hghost i).returned (hrefl i) hr
  refine ⟨fun i r hr ↦ ?_, fun hall ↦ ?_⟩
  · have hi := houtcome i r hr
    cases r with
    | ok outcome => exact ⟨outcome, rfl⟩
    | error e => exact hi.elim
  · choose results hresults using hall
    obtain ⟨hunique, hlegacy, htarget⟩ := migrated_of_outcomes fun i ↦
      houtcome i _ (hresults i)
    refine ⟨?_, hlegacy, htarget⟩
    simpa [hresults] using hunique

theorem safe_of_no_target (n : ℕ) (hlegacy : fs.entry legacyFindingsDir = some .dir)
    (htarget : fs.entry findingsDir = none) (hcalm : Undisturbed fs) : Safe (n + 1) fs := by
  refine safe_of_meets (Rely _) (Guar _) (fun i w ↦ Rely.refl _ i w) (fun i w₁ w₂ w₃ ↦ Rely.trans)
    (fun i j w w' hij h ↦ h i hij) fun i ↦ migrateLegacy_racing hlegacy ?_
  exact ⟨hcalm, .inl ⟨rfl, fun r ↦ rfl, htarget⟩⟩

/-! ### An empty target -/

/-- What is left of a migration after it has tried to remove an empty target. -/
def afterRemoval : Except Errno Unit → Fs (Except ResultsError MigrationOutcome)
  | .ok () => moveFindings legacyFindingsDir findingsDir
  | .error source => do
    if ← peerMigrated legacyFindingsDir then return .ok .notNeeded
    else return .error (.io findingsDir source)

section

variable (hlegacy : fs.entry legacyFindingsDir = some .dir)
  (htarget : fs.entry findingsDir = some .dir) (hempty : fs.names findingsDir = [])

include hlegacy htarget hempty

theorem safe_of_single (hcalm : Undisturbed fs) : Safe 1 fs := by
  refine safe_of_meets (fun _ ↦ Eq) (fun _ _ _ ↦ True) (fun i w ↦ rfl) (fun i w₁ w₂ w₃ ↦ Eq.trans)
    (fun i j w w' hij h ↦ absurd (Subsingleton.elim (α := Fin 1) i j) hij) fun i ↦ ?_
  obtain ⟨hreply, hentry⟩ := removeDir_of_empty htarget (by decide) hempty
  refine Prog.Meets.call_alone (act_eq (serve_symlinkMetadata_of_some hlegacy)) ?_
  refine Prog.Meets.call_alone (act_eq (serve_pathExists_of_some htarget)) ?_
  refine Prog.Meets.call_alone (act_eq (serve_readDir_of_dir htarget)) ?_
  rw [hempty]
  refine Prog.Meets.call_alone (act_eq (serve_pathExists_of_some hlegacy)) ?_
  refine Prog.Meets.call_alone (act_eq (Prod.ext hreply rfl)) ?_
  -- The target is gone and the rest is the race of one process without a target.
  have hracing : Racing (fun r ↦ fs.entry (legacyFindingsDir ++ r)) i
      ((fs.removeDir findingsDir).2, none) := by
    refine ⟨hcalm.congr fun q hq ↦ ?_, .inl ⟨rfl, fun r ↦ ?_, ?_⟩⟩
    · have hother : ∀ q ∈ ["auto"] :: resultsDir :: legacyDerived, q ≠ findingsDir := by decide
      rw [hentry, if_neg (hother q hq)]
    · rw [hentry, if_neg (by simp [legacyFindingsDir, findingsDir])]
    · rw [hentry, if_pos rfl]
  refine (moveFindings_racing hlegacy hracing).mono ?_ fun _ _ _ ↦ trivial
  rintro w _ rfl
  exact Rely.refl _ i w

/-- Four calls lead up to the removal of an empty target. -/
theorem migrateLegacy_alone :
    migrateLegacy.alone serve 4 fs = (Fs.removeDir findingsDir >>= afterRemoval, fs) := by
  have hread : serve (.readDir findingsDir) fs = (.ok [], fs) := by
    rw [serve_readDir_of_dir htarget, hempty]
  refine (alone_call (serve_symlinkMetadata_of_some hlegacy)).trans ?_
  refine (alone_call (serve_pathExists_of_some htarget)).trans ?_
  refine (alone_call hread).trans ?_
  refine (alone_call (serve_pathExists_of_some hlegacy)).trans ?_
  refine Prod.ext (congrArg (call _) (funext fun r ↦ ?_)) rfl
  cases r with
  | ok _ => rfl
  | error e =>
    refine congrArg (call _) (funext fun there ↦ ?_)
    cases there <;> rfl

/-- **The second process to remove an empty target fails** if it does so before the first has moved
the legacy directory. -/
theorem reaches_error_of_empty_target :
    ∃ cfg, Reaches (fun _ ↦ serve) (launch (n + 2) fs) cfg ∧
      cfg.procs 1 = .ret (.error (.io findingsDir .notFound)) := by
  have halone := migrateLegacy_alone hlegacy htarget hempty
  obtain ⟨hreply, hentry⟩ := removeDir_of_empty htarget (by decide) hempty
  set fs' := (fs.removeDir findingsDir).2 with hfs'
  have hgone : fs'.entry findingsDir = none := by rw [hentry, if_pos rfl]
  have hstays : fs'.entry legacyFindingsDir = some .dir := by
    rw [hentry, if_neg (by decide), hlegacy]
  have hmissing : fs'.missing findingsDir = .notFound := by
    have hchild : fs.entry (resultsDir ++ ["findings"]) = some .dir := htarget
    have hparent : fs.entry resultsDir = some .dir := fs.parent_dir _ "findings" (by simp [hchild])
    have hcases : ∀ q ∈ findingsDir.inits, q = [] ∨ q = resultsDir ∨ q = findingsDir := by decide
    refine missing_eq_notFound fun q hq ↦ ?_
    rcases hcases q ((mem_inits q _).2 hq) with rfl | rfl | rfl
    · rw [fs'.root_dir, isFile_dir]
    · rw [hentry, if_neg (by decide), hparent, isFile_dir]
    · rw [hgone, isFile_none]
  -- Both processes come to the removal, the first removes, the second fails and is not overtaken.
  have hremove : serve (.removeDir findingsDir) fs = (.ok (), fs') := Prod.ext hreply rfl
  have hfirst : (Fs.removeDir findingsDir >>= afterRemoval).alone serve 1 fs =
      (moveFindings legacyFindingsDir findingsDir, fs') := alone_call hremove
  have hsecond : (Fs.removeDir findingsDir >>= afterRemoval).alone serve 2 fs' =
      (.ret (.error (.io findingsDir (fs'.missing findingsDir))), fs') :=
    (alone_call (removeDir_of_none hgone)).trans (alone_call (serve_pathExists_of_some hstays))
  have hone : (1 : Fin (n + 2)) ≠ 0 := by simp
  let procs₁ : Fin (n + 2) → Fs (Except ResultsError MigrationOutcome) :=
    Function.update (fun _ ↦ migrateLegacy) 0 (Fs.removeDir findingsDir >>= afterRemoval)
  let procs₂ := Function.update procs₁ 1 (Fs.removeDir findingsDir >>= afterRemoval)
  let procs₃ := Function.update procs₂ 0 (moveFindings legacyFindingsDir findingsDir)
  have h₁ : Reaches (fun _ ↦ serve) (launch (n + 2) fs) ⟨procs₁, fs⟩ := by
    have h := reaches_alone (fun _ ↦ serve) (0 : Fin (n + 2)) 4 (fun _ ↦ migrateLegacy) fs
    rwa [halone] at h
  have h₂ : Reaches (fun _ ↦ serve) ⟨procs₁, fs⟩ ⟨procs₂, fs⟩ := by
    have h := reaches_alone (fun _ ↦ serve) (1 : Fin (n + 2)) 4 procs₁ fs
    rwa [show procs₁ 1 = migrateLegacy from Function.update_of_ne hone .., halone] at h
  have h₃ : Reaches (fun _ ↦ serve) ⟨procs₂, fs⟩ ⟨procs₃, fs'⟩ := by
    have h := reaches_alone (fun _ ↦ serve) (0 : Fin (n + 2)) 1 procs₂ fs
    rwa [show procs₂ 0 = Fs.removeDir findingsDir >>= afterRemoval from
      (Function.update_of_ne hone.symm ..).trans (Function.update_self ..), hfirst] at h
  have h₄ := reaches_alone (fun _ ↦ serve) (1 : Fin (n + 2)) 2 procs₃ fs'
  rw [show procs₃ 1 = Fs.removeDir findingsDir >>= afterRemoval from
    (Function.update_of_ne hone ..).trans (Function.update_self ..), hsecond, hmissing] at h₄
  exact ⟨_, ((h₁.trans h₂).trans h₃).trans h₄,
    Function.update_self (1 : Fin (n + 2)) (.ret (.error (.io findingsDir .notFound))) procs₃⟩

end

/-! ### The result -/

/-- Every call returns: no interleaving of `n` migrations is endless, and none is stuck before all
of them have returned. -/
def Returns (n : ℕ) : Prop :=
  (WellFounded fun cfg' cfg : Config (Fin n) DirTree Reply (Except ResultsError MigrationOutcome) ↦
    Moves (fun _ ↦ serve) cfg cfg') ∧
  ∀ cfg : Config (Fin n) DirTree Reply (Except ResultsError MigrationOutcome),
    ∀ i, (∀ r, cfg.procs i ≠ .ret r) → ∃ cfg', Moves (fun _ ↦ serve) cfg cfg'

/-- **Concurrent migrations of one work directory are safe exactly if there is no
`results/findings` at the start or only one process migrates.** They return in any case. -/
theorem migration_safe_iff (n : ℕ) (fs : DirTree) (hlegacy : fs.entry legacyFindingsDir = some .dir)
    (htarget : fs.entry findingsDir = none ∨
      fs.entry findingsDir = some .dir ∧ fs.names findingsDir = [])
    (hcalm : Undisturbed fs) :
    Returns (n + 1) ∧ (Safe (n + 1) fs ↔ fs.entry findingsDir = none ∨ n = 0) := by
  refine ⟨⟨wellFounded_moves, fun cfg i h ↦ exists_moves h⟩, fun hsafe ↦ ?_, fun h ↦ ?_⟩
  · rcases htarget with hfree | ⟨hdir, hempty⟩
    · exact .inl hfree
    · cases n with
      | zero => exact .inr rfl
      | succ n =>
        obtain ⟨cfg, hreach, herror⟩ := reaches_error_of_empty_target (n := n) hlegacy hdir hempty
        obtain ⟨outcome, houtcome⟩ := (hsafe cfg hreach).1 1 _ herror
        cases houtcome
  · rcases htarget with hfree | ⟨hdir, hempty⟩
    · exact safe_of_no_target n hlegacy hfree hcalm
    · obtain rfl : n = 0 := h.resolve_left (by simp [hdir])
      exact safe_of_single hlegacy hdir hempty hcalm

/-- A work directory with legacy findings only, one of which has been replayed. -/
def legacyOnly : DirTree :=
  let old := (DirTree.bare.createDir legacyFindingsDir).2
  let first := (old.createDir ["findings", "F-1"]).2
  let second := (first.createDir ["findings", "F-2"]).2
  ((second.add ["findings", "F-1"] "finding.json" (.file [0x7b, 0x7d]) (by decide) (by decide)).add
    ["findings", "F-1"] "replay.py" (.file [35]) (by decide) (by decide)).add
    ["findings", "F-2"] "finding.json" (.file [0x7b, 0x7d]) (by decide) (by decide)

/-- Eight processes migrate it safely. -/
theorem legacyOnly_safe : Safe 8 legacyOnly :=
  ((migration_safe_iff 7 legacyOnly (by decide) (.inl (by decide))
    ⟨by decide, by decide, by decide⟩).2.2 (.inl (by decide)))

/-- The same with an empty directory at the target. -/
def emptyTarget : DirTree :=
  ((legacyOnly.createDir resultsDir).2.createDir findingsDir).2

/-- Two processes do not: one of them may return an I/O error. -/
theorem emptyTarget_error :
    ¬Safe 2 emptyTarget ∧ ∃ cfg, Reaches (fun _ ↦ serve) (launch 2 emptyTarget) cfg ∧
      cfg.procs 1 = .ret (.error (.io findingsDir .notFound)) := by
  have hlegacy : emptyTarget.entry legacyFindingsDir = some .dir := by decide
  obtain ⟨cfg, hreach, herror⟩ :=
    reaches_error_of_empty_target (n := 0) hlegacy (by decide) (by decide)
  refine ⟨fun hsafe ↦ ?_, cfg, hreach, herror⟩
  obtain ⟨outcome, houtcome⟩ := (hsafe cfg hreach).1 1 _ herror
  cases houtcome

end Bhf.Results
