import Bhf.Lib.StateExcept

/-!
# Directories, symbolic links and path resolution

A file system as POSIX path resolution sees it. A `Location` is a canonical place, written as the
names from the innermost directory outwards, so that *inside* is "has as a suffix" and *up* is
`List.tail`. A `Path` is text: segments that are names, `.`, `..` or nothing at all (a doubled or
trailing slash). The two must not be confused: **`..` in a text is resolved after the links before
it**, and the textual parent of a path need not be the parent of the place it denotes.

`walk` resolves segments and follows at most a given number of links; `resolve` is `realpath` and
`stat`; `createDirAll` creates missing directories from the textual parents on, as the standard
library does.

Creating directories only adds directories, and resolution is monotone: a path that resolves keeps
its place in every larger file system (`resolve_mono`). Hence the place of a path after
`createDirAll` can be read off the file system before it, by imagining every missing directory
(`resolve_of_createDirAll`).
-/

namespace Bhf

open List

/-! ### Paths as text -/

/-- What stands between two slashes. -/
inductive Segment
  | empty
  | cur
  | up
  | name (n : String)
  deriving DecidableEq

structure Path where
  absolute : Bool
  segments : List Segment
  deriving DecidableEq

namespace Segment

def text : Segment → String
  | .empty => ""
  | .cur => "."
  | .up => ".."
  | .name n => n

end Segment

namespace Path

/-- The text `""`, which denotes nothing. -/
def isEmpty (p : Path) : Bool :=
  !p.absolute && p.segments.isEmpty

def text (p : Path) : String :=
  (if p.absolute then "/" else "") ++ "/".intercalate (p.segments.map Segment.text)

def join (p : Path) (segments : List Segment) : Path :=
  { p with segments := p.segments ++ segments }

/-- Drop trailing segments that are no components, last segment first. A leading `.` of a relative
path is a component. -/
def trimRev (absolute : Bool) : List Segment → List Segment
  | .empty :: ss => trimRev absolute ss
  | .cur :: ss => if ss.isEmpty && !absolute then [.cur] else trimRev absolute ss
  | ss => ss

/-- The path without its last component. -/
def parent (p : Path) : Option Path :=
  match trimRev p.absolute p.segments.reverse with
  | [] => none
  | _ :: rest => some ⟨p.absolute, (trimRev p.absolute rest).reverse⟩

/-- The path, its parent, the parent of that and so on; `n` bounds their number. -/
def ancestorsUpTo : ℕ → Path → List Path
  | 0, _ => []
  | n + 1, p =>
    p :: match p.parent with
      | none => []
      | some q => ancestorsUpTo n q

/-- All textual ancestors, the path itself first. -/
def ancestors (p : Path) : List Path :=
  ancestorsUpTo (p.segments.length + 1) p

end Path

/-! ### File systems -/

/-- A canonical place: the names from the innermost directory outwards. -/
abbrev Location := List String

inductive Node
  | dir
  | file
  | symlink (target : Path)
  deriving DecidableEq

/-- A tree of directories, files and links, with a working directory. -/
structure FileSystem where
  node : Location → Option Node
  cwd : Location
  root_dir : node [] = some .dir
  parent_dir : ∀ n l, node (n :: l) ≠ none → node l = some .dir
  cwd_dir : node cwd = some .dir

/-- The file system that has only a root. -/
def FileSystem.bare : FileSystem where
  node l := if l = [] then some .dir else none
  cwd := []
  root_dir := rfl
  parent_dir _ _ h := absurd rfl h
  cwd_dir := rfl

inductive IoError
  | notFound
  | notADirectory
  | tooManyLinks
  | alreadyExists
  | wholeTree
  deriving DecidableEq

def IoError.text : IoError → String
  | .notFound => "No such file or directory (os error 2)"
  | .notADirectory => "Not a directory (os error 20)"
  | .tooManyLinks => "Too many levels of symbolic links (os error 40)"
  | .alreadyExists => "File exists (os error 17)"
  | .wholeTree => "failed to create whole tree"

namespace FileSystem

/-- Links followed in one resolution before it is given up. -/
def maxLinks : ℕ := 40

variable (fs : FileSystem)

/-- Resolve segments from the directory `l`; `follow` continues behind a link. -/
def walkWith (follow : Location → List Segment → Except IoError Location) :
    Location → List Segment → Except IoError Location
  | l, [] => .ok l
  | l, .empty :: ss | l, .cur :: ss => walkWith follow l ss
  | l, .up :: ss => walkWith follow l.tail ss
  | l, .name n :: ss =>
    match fs.node (n :: l) with
    | none => .error .notFound
    | some .dir => walkWith follow (n :: l) ss
    | some .file => if ss.isEmpty then .ok (n :: l) else .error .notADirectory
    | some (.symlink target) =>
      if target.isEmpty then .error .notFound
      else follow (if target.absolute then [] else l) (target.segments ++ ss)

/-- Resolve segments from the directory `l`, following at most `links` links. -/
def walk : ℕ → Location → List Segment → Except IoError Location
  | 0 => fs.walkWith fun _ _ ↦ .error .tooManyLinks
  | links + 1 => fs.walkWith (walk links)

/-- Where the resolution of a path starts. -/
def start (absolute : Bool) : Location :=
  if absolute then [] else fs.cwd

/-- The canonical place of a path, following all links. -/
def resolve (p : Path) : Except IoError Location :=
  if p.isEmpty then .error .notFound else fs.walk maxLinks (fs.start p.absolute) p.segments

def pathExists (p : Path) : Bool :=
  match fs.resolve p with
  | .ok _ => true
  | .error _ => false

def isDir (p : Path) : Bool :=
  match fs.resolve p with
  | .ok l => fs.node l = some .dir
  | .error _ => false

/-! ### Creating directories -/

/-- Add an empty directory. -/
def insertDir (n : String) (l : Location) (hdir : fs.node l = some .dir)
    (hfresh : fs.node (n :: l) = none) : FileSystem where
  node l' := if l' = n :: l then some .dir else fs.node l'
  cwd := fs.cwd
  root_dir := by simpa using fs.root_dir
  parent_dir n' l' h := by
    have hl' : l' ≠ n :: l := by
      rintro rfl
      refine absurd h ?_
      have hnone : fs.node (n' :: n :: l) = none := by
        by_contra hsome
        simp [fs.parent_dir n' (n :: l) hsome] at hfresh
      simp [hnone]
    rw [if_neg hl']
    by_cases heq : n' :: l' = n :: l
    · obtain ⟨rfl, rfl⟩ := List.cons.inj heq
      exact hdir
    · rw [if_neg heq] at h
      exact fs.parent_dir n' l' h
  cwd_dir := by
    by_cases h : fs.cwd = n :: l
    · rw [if_pos h]
    · rw [if_neg h, fs.cwd_dir]

/-- Drop trailing slashes, last segment first. -/
def dropSlashes : List Segment → List Segment
  | .empty :: ss => dropSlashes ss
  | ss => ss

/-- Create one directory. The last component is not followed, whatever stands there. -/
def mkdir (p : Path) : StateExcept IoError FileSystem Unit := fun fs ↦
  if p.isEmpty then (.error .notFound, fs)
  else
    match dropSlashes p.segments.reverse with
    | [] => (.error .alreadyExists, fs)
    | last :: before =>
      match fs.walk maxLinks (fs.start p.absolute) before.reverse with
      | .error e => (.error e, fs)
      | .ok l =>
        if hdir : fs.node l = some .dir then
          match last with
          | .name n =>
            if hfresh : fs.node (n :: l) = none then (.ok (), fs.insertDir n l hdir hfresh)
            else (.error .alreadyExists, fs)
          | _ => (.error .alreadyExists, fs)
        else (.error .notADirectory, fs)

/-- A failed `mkdir` is no failure if the directory is there. -/
def orIsDir (p : Path) (e : IoError) : StateExcept IoError FileSystem Unit := fun fs ↦
  if fs.isDir p then (.ok (), fs) else (.error e, fs)

/-- Create the first of a chain of textual ancestors, and its ancestors where they are missing. -/
def createChain : List Path → StateExcept IoError FileSystem Unit
  | [] => throw .wholeTree
  | p :: rest =>
    if p.isEmpty then pure ()
    else
      tryCatch (mkdir p) fun e ↦
        if e = .notFound then do
          createChain rest
          tryCatch (mkdir p) (orIsDir p)
        else orIsDir p e

/-- Create a directory and all its missing parents. -/
def createDirAll (p : Path) : StateExcept IoError FileSystem Unit :=
  createChain p.ancestors

/-! ### Growing file systems -/

/-- `fs'` is `fs` with more directories. -/
structure Grows (fs fs' : FileSystem) : Prop where
  /-- The process stays where it is. -/
  cwd : fs'.cwd = fs.cwd
  /-- Nothing is lost or changed. -/
  kept : ∀ l x, fs.node l = some x → fs'.node l = some x
  /-- Only directories are new. -/
  added : ∀ l x, fs'.node l = some x → fs.node l = some x ∨ x = .dir

variable {fs} {fs' fs'' : FileSystem}

theorem Grows.refl (fs : FileSystem) : Grows fs fs :=
  ⟨rfl, fun _ _ h ↦ h, fun _ _ h ↦ .inl h⟩

theorem Grows.trans (h : Grows fs fs') (h' : Grows fs' fs'') : Grows fs fs'' where
  cwd := h'.cwd.trans h.cwd
  kept l x hx := h'.kept l x (h.kept l x hx)
  added l x hx := by
    rcases h'.added l x hx with hx | hx
    · exact h.added l x hx
    · exact .inr hx

variable {l r : Location} {ss : List Segment} {links : ℕ} {p : Path}

theorem grows_insertDir {n : String} (hdir : fs.node l = some .dir)
    (hfresh : fs.node (n :: l) = none) : Grows fs (fs.insertDir n l hdir hfresh) where
  cwd := rfl
  kept l' x hx := by
    have hne : l' ≠ n :: l := by
      rintro rfl
      simp [hfresh] at hx
    simpa [insertDir, hne] using hx
  added l' x hx := by
    by_cases h : l' = n :: l
    · exact .inr (by simpa [insertDir, h] using hx.symm)
    · exact .inl (by simpa [insertDir, h] using hx)

theorem walkWith_mono {follow follow' : Location → List Segment → Except IoError Location}
    (hkept : ∀ l x, fs.node l = some x → fs'.node l = some x)
    (hfollow : ∀ l ss r, follow l ss = .ok r → follow' l ss = .ok r)
    (h : fs.walkWith follow l ss = .ok r) : fs'.walkWith follow' l ss = .ok r := by
  induction ss generalizing l with
  | nil => exact h
  | cons s ss ih =>
    cases s with
    | empty => exact ih h
    | cur => exact ih h
    | up => exact ih h
    | name n =>
      rw [walkWith] at h ⊢
      cases hnode : fs.node (n :: l) with
      | none => simp [hnode] at h
      | some x =>
        rw [hnode] at h
        rw [hkept _ _ hnode]
        cases x with
        | dir => exact ih h
        | file => exact h
        | symlink target =>
          dsimp only at h ⊢
          split
          · next hempty => simp [hempty] at h
          · next hempty =>
            rw [if_neg hempty] at h
            exact hfollow _ _ _ h

theorem walk_mono (hkept : ∀ l x, fs.node l = some x → fs'.node l = some x)
    (h : fs.walk links l ss = .ok r) : fs'.walk links l ss = .ok r := by
  induction links generalizing l r ss with
  | zero => exact walkWith_mono hkept (fun _ _ _ h ↦ h) h
  | succ links ih => exact walkWith_mono hkept (fun _ _ _ h ↦ ih h) h

/-- **A path that resolves keeps its place when directories are added.** -/
theorem resolve_mono (hcwd : fs'.cwd = fs.cwd)
    (hkept : ∀ l x, fs.node l = some x → fs'.node l = some x) (h : fs.resolve p = .ok l) :
    fs'.resolve p = .ok l := by
  rw [resolve] at h ⊢
  split at h
  · simp at h
  · next hempty =>
    rw [if_neg hempty, start, hcwd]
    exact walk_mono hkept h

/-! ### The file system with all missing directories -/

/-- A missing entry of a directory is an imagined directory. -/
def completedNode (fs : FileSystem) : Location → Option Node
  | [] => some .dir
  | n :: l =>
    match fs.node (n :: l) with
    | some x => some x
    | none => if completedNode fs l = some .dir then some .dir else none

theorem completedNode_of_node {x : Node} (h : fs.node l = some x) :
    fs.completedNode l = some x := by
  cases l with
  | nil =>
    rwa [fs.root_dir] at h
  | cons n l => rw [completedNode, h]

/-- The file system in which every missing directory has been created. -/
def completed (fs : FileSystem) : FileSystem where
  node := fs.completedNode
  cwd := fs.cwd
  root_dir := rfl
  parent_dir n l h := by
    rw [completedNode] at h
    split at h
    · next x hx => exact completedNode_of_node (fs.parent_dir n l (by simp [hx]))
    · split at h
      · next hdir => exact hdir
      · exact absurd rfl h
  cwd_dir := completedNode_of_node fs.cwd_dir

/-- Whatever is created lies in the completed file system. -/
theorem Grows.completedNode (h : Grows fs fs') {x : Node} (hx : fs'.node l = some x) :
    fs.completedNode l = some x := by
  induction l generalizing x with
  | nil =>
    rwa [fs'.root_dir] at hx
  | cons n l ih =>
    cases hnode : fs.node (n :: l) with
    | some y =>
      rw [completedNode_of_node hnode, ← hx, h.kept _ _ hnode]
    | none =>
      have hdir : x = .dir := (h.added _ _ hx).resolve_left (by simp [hnode])
      have hparent := ih (fs'.parent_dir n l (by simp [hx]))
      rw [FileSystem.completedNode, hnode, hdir]
      exact if_pos hparent

/-! ### What creating directories achieves -/

/-- Resolving an extended path from the place of its beginning. -/
theorem walk_append {mid : Location} {rest : List Segment} (h : fs.walk links l ss = .ok mid)
    (hdir : fs.node mid = some .dir) (hrest : ∀ links, fs.walk links mid rest = .ok r) :
    fs.walk links l (ss ++ rest) = .ok r := by
  -- One level of links, given the levels below.
  have level {follow : Location → List Segment → Except IoError Location}
      (hstop : fs.walkWith follow mid rest = .ok r)
      (hfollow : ∀ l ss, follow l ss = .ok mid → follow l (ss ++ rest) = .ok r) :
      ∀ l ss, fs.walkWith follow l ss = .ok mid → fs.walkWith follow l (ss ++ rest) = .ok r := by
    intro l ss hss
    induction ss generalizing l with
    | nil =>
      obtain rfl : l = mid := Except.ok.inj hss
      exact hstop
    | cons s ss ih =>
      cases s with
      | empty | cur | up => exact ih _ hss
      | name n =>
        rw [cons_append, walkWith]
        rw [walkWith] at hss
        cases hnode : fs.node (n :: l) with
        | none => simp [hnode] at hss
        | some x =>
          rw [hnode] at hss
          cases x with
          | dir => exact ih _ hss
          | file =>
            -- A file ends the walk, but the walk ended in a directory.
            dsimp only at hss
            split at hss
            · obtain rfl : n :: l = mid := Except.ok.inj hss
              simp [hnode] at hdir
            · simp at hss
          | symlink target =>
            dsimp only at hss ⊢
            split at hss
            · simp at hss
            · next hempty =>
              -- Behind the link the walk goes on one level further down.
              rw [if_neg hempty, ← append_assoc]
              exact hfollow _ _ hss
  induction links generalizing l ss with
  | zero => exact level (hrest 0) (fun _ _ h ↦ by simp at h) l ss h
  | succ links ih => exact level (hrest (links + 1)) (fun _ _ h ↦ ih h) l ss h

theorem walk_slashes (l : Location) (h : ∀ s ∈ ss, s = .empty) : fs.walk links l ss = .ok l := by
  induction ss with
  | nil => cases links <;> rfl
  | cons s ss ih =>
    obtain rfl := h s mem_cons_self
    have hss := ih fun s hs ↦ h s (mem_cons_of_mem _ hs)
    cases links <;> exact hss

theorem exists_dropSlashes (ss : List Segment) :
    ∃ slashes, (∀ s ∈ slashes, s = .empty) ∧ ss = slashes ++ dropSlashes ss := by
  induction ss with
  | nil => exact ⟨[], by simp, rfl⟩
  | cons s ss ih =>
    cases s with
    | empty =>
      obtain ⟨slashes, hslashes, h⟩ := ih
      refine ⟨.empty :: slashes, by simpa using hslashes, ?_⟩
      rw [dropSlashes, cons_append, ← h]
    | cur | up | name n => exact ⟨[], by simp, rfl⟩

/-- A directory that was created is there. -/
theorem runs_mkdir (h : StateExcept.Runs (mkdir p) fs () fs') :
    Grows fs fs' ∧ ∃ l, fs'.resolve p = .ok l := by
  change mkdir p fs = (.ok (), fs') at h
  rw [mkdir] at h
  split at h
  · simp at h
  next hempty =>
  split at h
  · simp at h
  next last before hsegments =>
  split at h
  · simp at h
  next l hwalk =>
  split at h
  · next hdir =>
    split at h
    · next n =>
      split at h
      · next hfresh =>
        obtain rfl : fs.insertDir n l hdir hfresh = fs' := (Prod.mk.inj h).2
        have hgrows := grows_insertDir hdir hfresh
        refine ⟨hgrows, n :: l, ?_⟩
        -- The path is the parent, the new name and slashes, which do not move.
        obtain ⟨slashes, hslashes, hreverse⟩ := exists_dropSlashes p.segments.reverse
        have hp : p.segments = before.reverse ++ (.name n :: slashes.reverse) := by
          rw [← reverse_reverse p.segments, hreverse, hsegments]
          simp
        rw [resolve, if_neg hempty, hp]
        refine walk_append (walk_mono hgrows.kept hwalk) (hgrows.kept _ _ hdir) fun links ↦ ?_
        have hnode : (fs.insertDir n l hdir hfresh).node (n :: l) = some .dir := by
          simp [insertDir]
        have hend : (fs.insertDir n l hdir hfresh).walk links (n :: l) slashes.reverse =
            .ok (n :: l) := walk_slashes _ (by simpa using hslashes)
        cases links with
        | zero | succ links => rw [walk, walkWith, hnode]; exact hend
      · simp at h
    · simp at h
  · simp at h

theorem exists_resolve_of_isDir (h : fs.isDir p) : ∃ l, fs.resolve p = .ok l := by
  rw [isDir] at h
  split at h
  · next l hl => exact ⟨l, hl⟩
  · simp at h

theorem runs_orIsDir {e : IoError} (h : StateExcept.Runs (orIsDir p e) fs () fs') :
    Grows fs fs' ∧ ∃ l, fs'.resolve p = .ok l := by
  change orIsDir p e fs = (.ok (), fs') at h
  rw [orIsDir] at h
  split at h
  · next hdir =>
    obtain rfl : fs = fs' := (Prod.mk.inj h).2
    exact ⟨Grows.refl _, exists_resolve_of_isDir hdir⟩
  · simp at h

/-- A `mkdir` that fails leaves everything as it was. -/
theorem eq_of_exec_mkdir_error {e : IoError} (h : StateExcept.exec (mkdir p) fs = (.error e, fs')) :
    fs' = fs := by
  change mkdir p fs = (.error e, fs') at h
  rw [mkdir] at h
  repeat' split at h
  all_goals first | exact (Prod.mk.inj h).2.symm | simp at h

theorem runs_createChain {chain : List Path} (h : StateExcept.Runs (createChain chain) fs () fs') :
    Grows fs fs' ∧
      ∀ p rest, chain = p :: rest → p.isEmpty = false → ∃ l, fs'.resolve p = .ok l := by
  induction chain generalizing fs fs' with
  | nil => simp [StateExcept.Runs, createChain] at h
  | cons p rest ih =>
    rw [createChain] at h
    split at h
    · next hempty =>
      obtain rfl : fs = fs' := (Prod.mk.inj h).2
      refine ⟨Grows.refl _, fun p' _ hp hne ↦ ?_⟩
      obtain ⟨rfl, -⟩ := cons.inj hp
      simp [hempty] at hne
    · suffices hgoal : Grows fs fs' ∧ ∃ l, fs'.resolve p = .ok l by
        refine ⟨hgoal.1, fun p' _ hp _ ↦ ?_⟩
        obtain ⟨rfl, -⟩ := cons.inj hp
        exact hgoal.2
      rcases StateExcept.runs_tryCatch_iff.1 h with hmkdir | ⟨e, fs₁, hfail, hhandler⟩
      · exact runs_mkdir hmkdir
      obtain rfl := eq_of_exec_mkdir_error hfail
      split at hhandler
      · -- The parents were missing: they are created first.
        obtain ⟨_, fs₂, hrest, hagain⟩ := StateExcept.runs_bind_iff.1 hhandler
        obtain ⟨hgrows, -⟩ := ih hrest
        rcases StateExcept.runs_tryCatch_iff.1 hagain with hmkdir | ⟨e', fs₃, hfail', hisDir⟩
        · exact ⟨hgrows.trans (runs_mkdir hmkdir).1, (runs_mkdir hmkdir).2⟩
        · obtain rfl := eq_of_exec_mkdir_error hfail'
          exact ⟨hgrows.trans (runs_orIsDir hisDir).1, (runs_orIsDir hisDir).2⟩
      · exact runs_orIsDir hhandler

/-- **Where a created directory is**: its path resolves afterwards, to the place it leads to with
every missing directory imagined. -/
theorem resolve_of_createDirAll (hp : p.isEmpty = false)
    (h : StateExcept.Runs (createDirAll p) fs () fs') :
    ∃ l, fs'.resolve p = .ok l ∧ fs.completed.resolve p = .ok l := by
  obtain ⟨hgrows, hchain⟩ := runs_createChain h
  obtain ⟨rest, hancestors⟩ : ∃ rest, p.ancestors = p :: rest := ⟨_, rfl⟩
  obtain ⟨l, hl⟩ := hchain p rest hancestors hp
  have hcwd : fs.completed.cwd = fs'.cwd := hgrows.cwd.symm
  exact ⟨l, hl, resolve_mono hcwd (fun _ _ ↦ hgrows.completedNode) hl⟩

end FileSystem

end Bhf
