import Mathlib.Data.List.Dedup
import Mathlib.Data.List.Induction
import Mathlib.Data.List.Nodup

/-!
# Recency

`recent uses` lists the different elements of a list of uses, the one used last first.  A cache of
capacity `c` that evicts the least recently used element holds the first `c` of them: a use moves
an element that is held to the front (`take_recent_of_mem`), and puts one that is not held in front
of the first `c - 1` (`take_recent_of_notMem`).
-/

namespace VertexDB

namespace Recency

variable {α : Type*} [DecidableEq α]

/-- The different elements of `uses`, the most recently used one first. -/
def recent (uses : List α) : List α := uses.dedup.reverse

@[simp] theorem recent_nil : recent ([] : List α) = [] := rfl

theorem nodup_recent (uses : List α) : (recent uses).Nodup :=
  List.nodup_reverse.2 (List.nodup_dedup uses)

@[simp] theorem mem_recent {uses : List α} {x : α} : x ∈ recent uses ↔ x ∈ uses := by
  simp [recent]

theorem length_recent (uses : List α) : (recent uses).length = uses.dedup.length := by
  simp [recent]

theorem dedup_concat (uses : List α) (x : α) :
    (uses ++ [x]).dedup = uses.dedup.filter (· ≠ x) ++ [x] := by
  induction uses with
  | nil => simp
  | cons y uses ih =>
    by_cases hy : y ∈ uses
    · rw [List.cons_append, List.dedup_cons_of_mem (List.mem_append_left _ hy), ih,
        List.dedup_cons_of_mem hy]
    · rw [List.dedup_cons_of_notMem hy]
      by_cases hyx : y = x
      · rw [List.cons_append, List.dedup_cons_of_mem (by simp [hyx]), ih,
          List.filter_cons_of_neg (by simp [hyx])]
      · rw [List.cons_append, List.dedup_cons_of_notMem (by simp [hy, hyx]), ih,
          List.filter_cons_of_pos (by simpa using hyx), List.cons_append]

/-- A use moves the element to the front. -/
theorem recent_concat (uses : List α) (x : α) :
    recent (uses ++ [x]) = x :: (recent uses).filter (· ≠ x) := by
  rw [recent, dedup_concat, List.reverse_append, ← List.filter_reverse]
  rfl

/-- The elements of later uses come before all others. -/
theorem recent_append (uses later : List α) :
    recent (uses ++ later) = recent later ++ (recent uses).filter (· ∉ later) := by
  induction later using List.reverseRecOn with
  | nil => simp
  | append_singleton later x ih =>
    rw [← List.append_assoc, recent_concat, recent_concat, ih, List.filter_append,
      List.filter_filter, List.cons_append]
    refine congrArg (fun l => x :: (_ ++ l)) (List.filter_congr fun y _ => ?_)
    simp only [List.mem_append, List.mem_singleton, not_or, Bool.decide_and, Bool.and_comm]

/-! ### The first elements -/

theorem take_filter_of_notMem {l : List α} {x : α} {n : ℕ} (h : x ∉ l.take n) :
    (l.filter (· ≠ x)).take n = l.take n := by
  have hkept : (l.take n).filter (· ≠ x) = l.take n :=
    List.filter_eq_self.2 fun y hy => by simpa using fun heq : y = x => h (heq ▸ hy)
  conv_lhs => rw [← List.take_append_drop n l, List.filter_append, hkept]
  by_cases hn : n ≤ l.length
  · exact List.take_left' (by rw [List.length_take]; omega)
  · rw [List.drop_eq_nil_of_le (by omega), List.filter_nil, List.append_nil, List.take_take,
      Nat.min_self]

theorem length_filter_of_mem {l : List α} (hl : l.Nodup) {x : α} (h : x ∈ l) :
    (l.filter (· ≠ x)).length + 1 = l.length := by
  have herase : l.filter (· ≠ x) = l.erase x := by
    rw [hl.erase_eq_filter]
    exact List.filter_congr fun y _ => by simp [bne, BEq.beq]
  have := List.length_pos_of_mem h
  rw [herase, List.length_erase_of_mem h]
  omega

theorem take_filter_of_mem {l : List α} (hl : l.Nodup) {x : α} {n : ℕ} (h : x ∈ l.take (n + 1)) :
    (l.filter (· ≠ x)).take n = (l.take (n + 1)).filter (· ≠ x) := by
  have hlength := length_filter_of_mem (hl.sublist (List.take_sublist _ _)) h
  rw [List.length_take] at hlength
  conv_lhs => rw [← List.take_append_drop (n + 1) l, List.filter_append]
  by_cases hn : n + 1 ≤ l.length
  · exact List.take_left' (by omega)
  · rw [List.drop_eq_nil_of_le (by omega), List.filter_nil, List.append_nil]
    exact List.take_of_length_le (by omega)

/-! ### The elements a cache holds -/

/-- An element that is held is used. -/
theorem take_recent_of_mem {uses : List α} {x : α} {c : ℕ} (h : x ∈ (recent uses).take c) :
    (recent (uses ++ [x])).take c = x :: ((recent uses).take c).filter (· ≠ x) := by
  match c with
  | 0 => simp at h
  | c + 1 =>
    rw [recent_concat, List.take_succ_cons, take_filter_of_mem (nodup_recent uses) h]

/-- An element that is not held is used. -/
theorem take_recent_of_notMem {uses : List α} {x : α} {c : ℕ} (hc : 0 < c)
    (h : x ∉ (recent uses).take c) :
    (recent (uses ++ [x])).take c = (x :: (recent uses).take c).take c := by
  match c with
  | c + 1 =>
    have hc : x ∉ (recent uses).take c := fun h' => h (List.mem_of_mem_take (i := c) (by
      rwa [List.take_take, Nat.min_eq_left (Nat.le_succ c)]))
    rw [recent_concat, List.take_succ_cons, List.take_succ_cons, take_filter_of_notMem hc,
      List.take_take, Nat.min_eq_left (Nat.le_succ c)]

/-- A cache that is not full holds every element. -/
theorem mem_take_recent_of_length_lt {uses : List α} {x : α} {c : ℕ}
    (h : ((recent uses).take c).length < c) (hx : x ∈ uses) : x ∈ (recent uses).take c := by
  rw [List.length_take] at h
  rw [List.take_of_length_le (by omega)]
  exact mem_recent.2 hx

theorem mem_take_recent_concat {uses : List α} {x y : α} {c : ℕ}
    (hy : y ∈ (recent (uses ++ [x])).take c) : y = x ∨ y ∈ (recent uses).take c := by
  match c with
  | 0 => simp at hy
  | c + 1 =>
    by_cases hx : x ∈ (recent uses).take (c + 1)
    · rw [take_recent_of_mem hx] at hy
      exact (List.mem_cons.1 hy).imp_right List.mem_of_mem_filter
    · rw [take_recent_of_notMem (Nat.succ_pos c) hx] at hy
      exact List.mem_cons.1 (List.mem_of_mem_take hy)

/-- Enough later uses displace everything else. -/
theorem mem_of_mem_take_recent_append {uses later : List α} {x : α} {c : ℕ}
    (hc : c ≤ later.dedup.length) (hx : x ∈ (recent (uses ++ later)).take c) : x ∈ later := by
  rw [recent_append, List.take_append_of_le_length (by rwa [length_recent])] at hx
  exact mem_recent.1 (List.mem_of_mem_take hx)

/-- Fewer later uses leave room for something else. -/
theorem exists_mem_take_recent_append {uses later : List α} {x : α} {c : ℕ}
    (hc : later.dedup.length < c) (hx : x ∈ uses) (hnot : x ∉ later) :
    ∃ y ∈ (recent (uses ++ later)).take c, y ∉ later := by
  have hother : x ∈ (recent uses).filter (· ∉ later) := by simp [hx, hnot]
  obtain ⟨y, others, hothers⟩ := List.exists_cons_of_ne_nil (List.ne_nil_of_mem hother)
  have hy : y ∉ later := by
    have hmem : y ∈ (recent uses).filter (· ∉ later) := by rw [hothers]; exact .head _
    simpa using List.of_mem_filter hmem
  refine ⟨y, ?_, hy⟩
  rw [recent_append, hothers, List.take_append]
  refine List.mem_append_right _ ?_
  obtain ⟨room, hroom⟩ : ∃ room, c - (recent later).length = room + 1 :=
    ⟨c - later.dedup.length - 1, by rw [length_recent]; omega⟩
  rw [hroom]
  exact .head _

end Recency

end VertexDB
