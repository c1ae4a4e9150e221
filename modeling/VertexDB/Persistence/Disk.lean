import VertexDB.Common.Value

/-!
# The storage root

The directory that the write-ahead log and the snapshots live in, and the behaviour of the
platform that the code depends on but the language leaves open.
-/

namespace VertexDB

open Ascii

/-- The storage root: whether the directory exists, and its files by name.  Any bytes are the name
of a file here; what a file system does with names that it treats specially (those with `/` or a
zero byte, and those that are too long) is left out. -/
structure Disk where
  rootExists : Bool
  files : SortedMap Str Str
  deriving DecidableEq

namespace Disk

/-- A storage root that has never been used. -/
def empty : Disk := ⟨false, .empty⟩

/-- `std::filesystem::create_directories`. -/
def createDirectories (disk : Disk) : Disk := { disk with rootExists := true }

/-- The contents of a file. -/
def read (disk : Disk) (name : Str) : Option Str := disk.files.find? name

/-- Write a file. -/
def write (disk : Disk) (name contents : Str) : Disk :=
  { disk with files := disk.files.insert name contents }

/-- `std::filesystem::remove`. -/
def remove (disk : Disk) (name : Str) : Disk := { disk with files := disk.files.erase name }

@[simp] theorem read_createDirectories (disk : Disk) (name : Str) :
    disk.createDirectories.read name = disk.read name := rfl

@[simp] theorem read_write (disk : Disk) (name contents other : Str) :
    (disk.write name contents).read other =
      if other = name then some contents else disk.read other := by
  rw [read, write, SortedMap.find?_insert]
  congr

@[simp] theorem read_remove (disk : Disk) (name other : Str) :
    (disk.remove name).read other = if other = name then none else disk.read other := by
  rw [read, remove, SortedMap.find?_erase]
  congr

/-- The size that a file cannot reach: offsets in files are signed 64-bit integers. -/
def maxFileSize : ℕ := 2 ^ 63

/-- The part of a file name from its last dot on, the leading byte apart. -/
def extension (name : Str) : Str :=
  let reversed := name.tail.reverse
  if byte '.' ∈ reversed then byte '.' :: (reversed.takeWhile (· ≠ byte '.')).reverse else []

/-- A file name without its extension. -/
def stem (name : Str) : Str := name.take (name.length - (extension name).length)

end Disk

/-- What C++ leaves to the platform: the order in which the arguments of a call are evaluated,
the order in which a directory is listed, and how `std::ranges::sort` orders rows that compare
alike. -/
structure Platform where
  /-- The arguments of a call are evaluated from left to right. -/
  leftToRight : Bool
  /-- The order in which `std::filesystem::directory_iterator` visits files. -/
  listing : List Str → List Str
  listing_perm : ∀ names, (listing names).Perm names
  /-- `std::ranges::sort`, given the comparison. -/
  sort : (Row → Row → Bool) → List Row → List Row
  sort_perm : ∀ less rows, (sort less rows).Perm rows
  /-- The result is sorted when "not greater" is a total preorder. -/
  sort_pairwise : ∀ less rows, (∀ a b, less a b = true → less b a = false) →
    (∀ a b c, less b a = false → less c b = false → less c a = false) →
    (sort less rows).Pairwise fun a b => less b a = false

namespace Platform

/-- A platform that lists directories by name and sorts by insertion. -/
def byInsertion (leftToRight : Bool) : Platform where
  leftToRight := leftToRight
  listing := id
  listing_perm _ := .refl _
  sort less rows := rows.insertionSort fun a b => less b a = false
  sort_perm _ _ := List.perm_insertionSort _ _
  sort_pairwise less rows hasymm htrans := by
    have : Std.Total fun a b : Row => less b a = false := ⟨fun a b => by
      cases h : less b a with
      | false => exact .inl rfl
      | true => exact .inr (hasymm b a h)⟩
    have : IsTrans Row fun a b => less b a = false := ⟨fun a b c => htrans a b c⟩
    exact List.pairwise_insertionSort _ rows

end Platform

end VertexDB
