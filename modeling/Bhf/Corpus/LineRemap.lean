import Bhf.Lib.LineAnchors

/-!
# The line maps of the instrumented units

The corpus crate's side of line remapping. An instrumented unit has a sidecar file beside it with
the anchors of its line map; `SourceLineMaps.load` collects the sidecars of a directory under the
lower-cased name of the unit, and a line of a unit is looked up in the anchors found there.

A directory is the list of its entries in the order in which it is read, each with its file name and
with **what reading and parsing it as a sidecar gave** (`none` if either failed). A later entry
replaces an earlier one of the same key, so a unit's anchors are found if its sidecar is the only
one under its name (`get_load`).
-/

namespace Bhf.Corpus

open Bhf.LineAnchors

def sidecarSuffix : String :=
  ".bhf-lines.json"

structure SidecarFile where
  sourcePath : String
  anchors : List Anchor
  deriving DecidableEq

/-- An entry of a directory. -/
structure DirEntry where
  fileName : String
  sidecar : Option SidecarFile
  deriving DecidableEq

/-- The name without an ending, if it has that ending. -/
def stripSuffix (name ending : String) : Option String :=
  if ending.toList <:+ name.toList then
    some (String.ofList (name.toList.take (name.toList.length - ending.toList.length)))
  else
    none

theorem stripSuffix_append (name ending : String) :
    stripSuffix (name ++ ending) ending = some name := by
  rw [stripSuffix, String.toList_append, if_pos (List.suffix_append _ _), List.length_append,
    Nat.add_sub_cancel_right, List.take_left, String.ofList_toList]

/-- The maps by the lower-cased name of the unit: the original path and the sorted anchors. -/
structure SourceLineMaps where
  maps : String → Option (String × List Anchor)

namespace SourceLineMaps

def empty : SourceLineMaps :=
  ⟨fun _ ↦ none⟩

def insert (maps : SourceLineMaps) (key : String) (value : String × List Anchor) : SourceLineMaps :=
  ⟨fun k ↦ if k = key then some value else maps.maps k⟩

/-- One turn of the loop over the directory. -/
def loadEntry (maps : SourceLineMaps) (entry : DirEntry) : SourceLineMaps :=
  match stripSuffix entry.fileName sidecarSuffix, entry.sidecar with
  | some basename, some sidecar =>
    maps.insert basename.toLower (sidecar.sourcePath, sortByLine sidecar.anchors)
  | _, _ => maps

/-- Load every sidecar of a directory. -/
def load (dir : List DirEntry) : SourceLineMaps :=
  dir.foldl loadEntry empty

def toOriginal (anchors : List Anchor) (instrLine : UInt32) : UInt32 :=
  lookup anchors instrLine

/-- The lookup of one reference to a line of a unit in a message. -/
def originalLine (maps : SourceLineMaps) (basename : String) (line : UInt32) : Option UInt32 :=
  (maps.maps basename.toLower).map fun (_, anchors) ↦ toOriginal anchors line

/-- The sidecar of a unit. -/
def sidecarEntry (basename : String) (sidecar : SidecarFile) : DirEntry :=
  ⟨basename ++ sidecarSuffix, some sidecar⟩

/-- The sidecar of a unit is the only one of a directory under the unit's name. -/
structure Holds (dir : List DirEntry) (basename : String) (sidecar : SidecarFile) : Prop where
  /-- The sidecar is there. -/
  mem : sidecarEntry basename sidecar ∈ dir
  /-- No other file is taken for it. -/
  only : ∀ entry ∈ dir, ∀ name, stripSuffix entry.fileName sidecarSuffix = some name →
    name.toLower = basename.toLower → entry = sidecarEntry basename sidecar

section

variable {basename : String} {sidecar : SidecarFile}

/-- What a directory holds for a unit once its sidecar is read. -/
theorem maps_loadEntry_self (maps : SourceLineMaps) :
    (maps.loadEntry (sidecarEntry basename sidecar)).maps basename.toLower =
      some (sidecar.sourcePath, sortByLine sidecar.anchors) := by
  simp [loadEntry, sidecarEntry, stripSuffix_append, insert]

/-- **The unit's map is found** in a directory that holds its sidecar, whatever else is there. -/
theorem get_load {dir : List DirEntry} (h : Holds dir basename sidecar) :
    (load dir).maps basename.toLower = some (sidecar.sourcePath, sortByLine sidecar.anchors) := by
  -- Once the sidecar is read its map stays: the entries behind it are of other units or the same.
  obtain ⟨before, after, rfl⟩ := List.append_of_mem h.mem
  rw [load, List.foldl_append]
  refine List.foldlRecOn (motive := fun maps : SourceLineMaps ↦ maps.maps basename.toLower = some _)
    after loadEntry (maps_loadEntry_self _) fun maps hmaps entry hentry ↦ ?_
  by_cases hself : entry = sidecarEntry basename sidecar
  · exact hself ▸ maps_loadEntry_self maps
  · rw [loadEntry]
    split
    · next name _ hname _ =>
      have hother : name.toLower ≠ basename.toLower := fun heq ↦
        hself (h.only entry (by simp [hentry]) name hname heq)
      exact (if_neg hother.symm).trans hmaps
    · exact hmaps

end

end SourceLineMaps

end Bhf.Corpus
