import VertexDB.Indexing.BTreeIndex
import VertexDB.Lib.OrderedMultimap

/-!
# Runs of the ordered index

The calls on a `BTreeIndex` are updates of an ordered multimap of row ids by the keys of the values
they are called with (`updates`).  After every sequence of them the entries hold the bindings that
are live, and since the leaves are the entries the lookups select from those bindings
(`lookups_eq_multimap`), whatever the capacity of a leaf.
-/

namespace VertexDB

namespace BTreeIndex

open OrderedMultimap

/-- A call of `insert`, `remove` or `clear`. -/
abbrev IndexCall := Update Value RowId

/-- The updates of the multimap. -/
def updates (calls : List IndexCall) : List (Update Value.Key RowId) :=
  calls.map (Update.mapKey Value.key)

/-- The index after a call. -/
def call (index : BTreeIndex) : IndexCall → BTreeIndex
  | .insert key rowId => index.insert key rowId
  | .remove key rowId => index.remove key rowId
  | .clear => index.clear

/-- The index after a sequence of calls. -/
def run (index : BTreeIndex) (calls : List IndexCall) : BTreeIndex := calls.foldl call index

theorem run_concat (index : BTreeIndex) (calls : List IndexCall) (last : IndexCall) :
    index.run (calls ++ [last]) = (index.run calls).call last := by
  rw [run, run, List.foldl_append]
  rfl

variable {index : BTreeIndex} {calls : List IndexCall}

theorem updates_concat (calls : List IndexCall) (last : IndexCall) :
    updates (calls ++ [last]) = updates calls ++ [last.mapKey Value.key] := by
  rw [updates, List.map_append]
  rfl

/-- A call keeps the entries those of the multimap. -/
theorem holds_call (h : Holds index.entries (live (updates calls))) (last : IndexCall) :
    Holds (index.call last).entries (live (updates (calls ++ [last]))) := by
  rw [updates_concat]
  match last with
  | .insert value rowId =>
    rw [Update.mapKey, live_concat_insert]
    exact h.insert value.key rowId
  | .remove value rowId =>
    rw [Update.mapKey, live_concat_remove, call, remove]
    by_cases hfind : index.entries.find? value.key = none
    · simp only [hfind]
      exact h.remove_of_none hfind rowId
    · obtain ⟨rowIds, hsome⟩ := Option.ne_none_iff_exists'.1 hfind
      simp only [hsome]
      exact h.remove_of_some hsome rowId
  | .clear =>
    rw [Update.mapKey, live_concat_clear]
    exact holds_empty

theorem holds_run (h : index.entries = .empty) (calls : List IndexCall) :
    Holds (index.run calls).entries (live (updates calls)) := by
  induction calls using List.reverseRecOn with
  | nil =>
    rw [run, List.foldl_nil, h]
    exact holds_empty
  | append_singleton calls last ih =>
    rw [run_concat]
    exact holds_call ih last

theorem exists_make {maxKeysPerLeaf : ℕ} (h : 1 ≤ maxKeysPerLeaf) :
    ∃ index, make maxKeysPerLeaf = .ok index ∧ index.entries = .empty :=
  ⟨⟨.empty, maxKeysPerLeaf, h, rebuildLayout maxKeysPerLeaf [], rfl⟩, dif_pos h, rfl⟩

/-- **The lookups are those of an ordered multimap.**  After every sequence of calls `find` returns
the row ids that are live under the key of the value, `lessThan` and `greaterThan` those of the
keys below and above, by key and then in insertion order, with none missing or repeated, and `size`
counts the keys that have one. -/
theorem lookups_eq_multimap {maxKeysPerLeaf : ℕ} (h : 1 ≤ maxKeysPerLeaf)
    (calls : List IndexCall) :
    ∃ index, make maxKeysPerLeaf = .ok index ∧
      (∀ value, (index.run calls).find value = valuesAt (live (updates calls)) value.key) ∧
      (∀ value, (index.run calls).lessThan value =
        select (live (updates calls)) fun k => k < value.key) ∧
      (∀ value, ((index.run calls).lessThan value).Perm
        (((live (updates calls)).filter fun binding => binding.1 < value.key).map Prod.snd)) ∧
      (∀ value, (index.run calls).greaterThan value =
        select (live (updates calls)) fun k => value.key < k) ∧
      (∀ value, ((index.run calls).greaterThan value).Perm
        (((live (updates calls)).filter fun binding => value.key < binding.1).map Prod.snd)) ∧
      (index.run calls).size = ((live (updates calls)).map Prod.fst).dedup.length := by
  obtain ⟨index, hmake, hempty⟩ := exists_make h
  have hholds := holds_run hempty calls
  have hless (value : Value) : (index.run calls).lessThan value =
      select (live (updates calls)) fun k => k < value.key := by
    rw [lessThan_eq]
    exact hholds.flatMap_filter fun k => decide (k < value.key)
  have hgreater (value : Value) : (index.run calls).greaterThan value =
      select (live (updates calls)) fun k => value.key < k := by
    rw [greaterThan_eq]
    exact hholds.flatMap_filter fun k => decide (value.key < k)
  refine ⟨index, hmake, fun value => ?_, hless, fun value => ?_, hgreater, fun value => ?_,
    hholds.size_eq⟩
  · rw [find_eq]
    exact hholds.getD_find? value.key
  · rw [hless value]
    exact select_perm (live (updates calls)) fun k => decide (k < value.key)
  · rw [hgreater value]
    exact select_perm (live (updates calls)) fun k => decide (value.key < k)

/-- Leaves of one key, a row id inserted twice under a key and removed at once. -/
theorem lookups_eq_multimap_removed : ∃ index, make 1 = .ok index ∧
    (index.run [.insert (.int 2) 0, .insert (.int 1) 1, .insert (.int 2) 2, .insert (.int 2) 0,
      .remove (.int 2) 0]).find (.int 2) = [2] := by
  obtain ⟨index, hmake, hfind, -⟩ := @lookups_eq_multimap 1 (by decide)
    [.insert (.int 2) 0, .insert (.int 1) 1, .insert (.int 2) 2, .insert (.int 2) 0,
      .remove (.int 2) 0]
  exact ⟨index, hmake, (hfind (.int 2)).trans (by decide)⟩

end BTreeIndex

end VertexDB
