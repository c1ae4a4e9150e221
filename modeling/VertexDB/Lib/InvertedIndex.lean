import VertexDB.Lib.SortedMap

/-!
# Inverted indexes

An inverted index of a list of keys maps every key to the increasing list of its positions
(`InvertedIndex.IndexOf`).  It is built by adding positions one by one (`IndexOf.upsert`), and
reading its bindings in key order lists the positions of the keys of a range, each once, by key
and then by position (`IndexOf.select_perm`, `IndexOf.pairwise_select`).
-/

namespace InvertedIndex

variable {κ : Type*} [LinearOrder κ]

/-- The positions of `k` in `keys`, in increasing order. -/
def positions (keys : List κ) (k : κ) : List ℕ :=
  (List.range keys.length).filter fun i => keys[i]? = some k

theorem mem_positions {keys : List κ} {k : κ} {i : ℕ} :
    i ∈ positions keys k ↔ keys[i]? = some k := by
  simp only [positions, List.mem_filter, List.mem_range, decide_eq_true_eq, and_iff_right_iff_imp]
  intro h
  exact (List.getElem?_eq_some_iff.1 h).1

theorem pairwise_positions (keys : List κ) (k : κ) : (positions keys k).Pairwise (· < ·) :=
  List.pairwise_lt_range.filter _

theorem positions_concat (keys : List κ) (k k' : κ) :
    positions (keys ++ [k]) k' = positions keys k' ++ if k' = k then [keys.length] else [] := by
  have hold : (List.range keys.length).filter (fun i => (keys ++ [k])[i]? = some k') =
      positions keys k' := by
    refine List.filter_congr fun i hi => ?_
    rw [List.getElem?_append_left (List.mem_range.1 hi)]
  have hnew : (keys ++ [k])[keys.length]? = some k := by simp
  rw [positions, List.length_append, List.length_singleton, List.range_succ, List.filter_append,
    hold]
  by_cases h : k' = k
  · simp [h]
  · simp [h, Ne.symm h]

/-- `m` maps every key of `keys` to its positions, and has no other bindings. -/
def IndexOf (m : SortedMap κ (List ℕ)) (keys : List κ) : Prop :=
  ∀ k, m.find? k = if positions keys k = [] then none else some (positions keys k)

theorem indexOf_empty : IndexOf (.empty : SortedMap κ (List ℕ)) [] := fun _ => rfl

/-- The positions an index selects: those of the keys satisfying `p`, in key order. -/
def select (m : SortedMap κ (List ℕ)) (p : κ → Bool) : List ℕ :=
  (m.entries.filter fun e => p e.1).flatMap Prod.snd

namespace IndexOf

variable {m : SortedMap κ (List ℕ)} {keys : List κ}

/-- The keys determine their index. -/
theorem unique {m' : SortedMap κ (List ℕ)} (h : IndexOf m keys) (h' : IndexOf m' keys) :
    m = m' := by
  apply SortedMap.ext_find?
  intro k
  rw [h k, h' k]

theorem getD_find? (h : IndexOf m keys) (k : κ) : (m.find? k).getD [] = positions keys k := by
  rw [h k]
  split_ifs with he
  · rw [he]; rfl
  · rfl

theorem upsert (h : IndexOf m keys) (k : κ) :
    IndexOf (m.upsert k [] (· ++ [keys.length])) (keys ++ [k]) := by
  intro k'
  rw [SortedMap.find?_upsert, positions_concat]
  by_cases hk : k' = k
  · subst hk; simp [h.getD_find?]
  · rw [if_neg hk, if_neg hk, List.append_nil, h k']

theorem mem_entries (h : IndexOf m keys) {k : κ} {ids : List ℕ} :
    (k, ids) ∈ m.entries ↔ ids ≠ [] ∧ ids = positions keys k := by
  rw [SortedMap.mem_entries_iff, h k]
  split_ifs with he
  · simp [he]
  · constructor
    · rintro hs; cases hs; exact ⟨he, rfl⟩
    · rintro ⟨-, rfl⟩; rfl

theorem mem_select (h : IndexOf m keys) {p : κ → Bool} {i : ℕ} :
    i ∈ select m p ↔ ∃ k, keys[i]? = some k ∧ p k = true := by
  simp only [select, List.mem_flatMap, List.mem_filter, Prod.exists, h.mem_entries]
  constructor
  · rintro ⟨k, ids, ⟨⟨-, rfl⟩, hp⟩, hi⟩
    exact ⟨k, mem_positions.1 hi, hp⟩
  · rintro ⟨k, hk, hp⟩
    have hi := mem_positions.2 hk
    exact ⟨k, _, ⟨⟨List.ne_nil_of_mem hi, rfl⟩, hp⟩, hi⟩

/-- Positions are selected in the order of their keys, then of the positions. -/
theorem pairwise_select (h : IndexOf m keys) (p : κ → Bool) :
    (select m p).Pairwise fun i j =>
      ∃ a b, keys[i]? = some a ∧ keys[j]? = some b ∧ (a < b ∨ a = b ∧ i < j) := by
  refine List.pairwise_flatMap.2 ⟨?_, ?_⟩
  · rintro ⟨k, ids⟩ he
    obtain ⟨-, rfl⟩ := h.mem_entries.1 (List.mem_of_mem_filter he)
    refine (pairwise_positions keys k).imp_of_mem fun hi hj hij => ?_
    exact ⟨k, k, mem_positions.1 hi, mem_positions.1 hj, .inr ⟨rfl, hij⟩⟩
  · refine (m.sorted.filter _).imp_of_mem ?_
    rintro ⟨k, ids⟩ ⟨k', ids'⟩ he he' hlt i hi j hj
    obtain ⟨-, rfl⟩ := h.mem_entries.1 (List.mem_of_mem_filter he)
    obtain ⟨-, rfl⟩ := h.mem_entries.1 (List.mem_of_mem_filter he')
    exact ⟨k, k', mem_positions.1 hi, mem_positions.1 hj, .inl hlt⟩

theorem nodup_select (h : IndexOf m keys) (p : κ → Bool) : (select m p).Nodup := by
  refine (h.pairwise_select p).imp ?_
  rintro i j ⟨a, b, ha, hb, hab⟩ rfl
  rw [ha] at hb
  cases hb
  rcases hab with hab | ⟨-, hab⟩
  · exact lt_irrefl _ hab
  · exact Nat.lt_irrefl _ hab

/-- Every position whose key satisfies `p` is selected exactly once. -/
theorem select_perm (h : IndexOf m keys) (p : κ → Bool) :
    (select m p).Perm ((List.range keys.length).filter fun i => keys[i]?.any p) := by
  refine (List.perm_ext_iff_of_nodup (h.nodup_select p) (List.nodup_range.filter _)).2 fun i => ?_
  rw [h.mem_select, List.mem_filter, List.mem_range, Option.any_eq_true]
  constructor
  · rintro ⟨k, hk, hp⟩
    exact ⟨(List.getElem?_eq_some_iff.1 hk).1, k, hk, hp⟩
  · rintro ⟨-, k, hk, hp⟩
    exact ⟨k, hk, hp⟩

end IndexOf

end InvertedIndex
