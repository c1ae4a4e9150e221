import VertexDB.Lib.SortedMap

/-!
# Hash joins

A hash join groups the elements of one list by their key and probes the groups with the keys of
another list.  It gives the pairs that two nested loops give, in the same order
(`filter_probe_eq_nestedLoop`), whatever the keys and their multiplicities.
-/

namespace HashJoin

variable {α β γ κ : Type} [LinearOrder κ]

/-- The elements by their key, in the order of the list. -/
def group (key : β → κ) (ys : List β) : SortedMap κ (List β) :=
  ys.foldl (fun groups y => groups.upsert (key y) [] (· ++ [y])) .empty

/-- Combine each element with the group of its key. -/
def probe (key : α → κ) (combine : α → β → γ) (groups : SortedMap κ (List β)) (xs : List α) :
    List γ :=
  xs.flatMap fun x => ((groups.find? (key x)).getD []).map (combine x)

/-- Combine each element with each element of the other list that has the same key, and keep the
combinations that pass a test. -/
def nestedLoop (leftKey : α → κ) (rightKey : β → κ) (combine : α → β → γ) (test : γ → Bool)
    (xs : List α) (ys : List β) : List γ :=
  xs.flatMap fun x => ys.flatMap fun y =>
    if leftKey x = rightKey y ∧ test (combine x y) = true then [combine x y] else []

theorem getD_find?_foldl (key : β → κ) (ys : List β) (groups : SortedMap κ (List β)) (k : κ) :
    ((ys.foldl (fun groups y => groups.upsert (key y) [] (· ++ [y])) groups).find? k).getD [] =
      (groups.find? k).getD [] ++ ys.filter fun y => k = key y := by
  induction ys generalizing groups with
  | nil => simp
  | cons y ys ih =>
    rw [List.foldl_cons, ih, SortedMap.find?_upsert, List.filter_cons]
    by_cases h : k = key y
    · simp [h]
    · simp [h]

/-- The group of a key are the elements with that key. -/
theorem getD_find?_group (key : β → κ) (ys : List β) (k : κ) :
    ((group key ys).find? k).getD [] = ys.filter fun y => k = key y :=
  getD_find?_foldl key ys .empty k

theorem flatMap_ite_eq_filter_map (combine : β → γ) (same : β → Prop) [DecidablePred same]
    (test : γ → Bool) (ys : List β) :
    (ys.flatMap fun y => if same y ∧ test (combine y) = true then [combine y] else []) =
      ((ys.filter fun y => same y).map combine).filter test := by
  induction ys with
  | nil => rfl
  | cons y ys ih =>
    rw [List.flatMap_cons, ih, List.filter_cons]
    by_cases hsame : same y
    · cases htest : test (combine y) <;> simp [hsame, htest]
    · simp [hsame]

/-- **The hash join is the nested loop join.** -/
theorem filter_probe_eq_nestedLoop (leftKey : α → κ) (rightKey : β → κ) (combine : α → β → γ)
    (test : γ → Bool) (xs : List α) (ys : List β) :
    (probe leftKey combine (group rightKey ys) xs).filter test =
      nestedLoop leftKey rightKey combine test xs ys := by
  rw [probe, nestedLoop, List.filter_flatMap]
  refine List.flatMap_congr fun x _ => ?_
  rw [getD_find?_group]
  exact (flatMap_ite_eq_filter_map (combine x) (fun y => leftKey x = rightKey y) test ys).symm

theorem mem_nestedLoop {leftKey : α → κ} {rightKey : β → κ} {combine : α → β → γ}
    {test : γ → Bool} {xs : List α} {ys : List β} {z : γ} :
    z ∈ nestedLoop leftKey rightKey combine test xs ys ↔ ∃ x ∈ xs, ∃ y ∈ ys,
      leftKey x = rightKey y ∧ test (combine x y) = true ∧ z = combine x y := by
  simp only [nestedLoop, List.mem_flatMap]
  refine exists_congr fun x => and_congr_right fun _ => exists_congr fun y =>
    and_congr_right fun _ => ?_
  split_ifs with h
  · rw [List.mem_singleton]
    exact ⟨fun hz => ⟨h.1, h.2, hz⟩, fun hz => hz.2.2⟩
  · exact ⟨fun hz => absurd hz List.not_mem_nil, fun hz => absurd ⟨hz.1, hz.2.1⟩ h⟩

end HashJoin
