import Mathlib.Data.List.Basic
import Mathlib.Order.Defs.LinearOrder
import Mathlib.Tactic

/-!
# Sorted lists cut into pieces

`Cut` says that pieces are consecutive parts of a list, each full up to a capacity except the last.
`Separates` says that keys are the first ones of all pieces but the first: the piece a search goes
to is then the one chosen by counting the separators that are not above the key (`route`), and
every other piece lies wholly on one side of it.
-/

namespace SortedPieces

section Cut

variable {α : Type*}

/-- The pieces are the list, cut at every multiple of the capacity. -/
structure Cut (capacity : ℕ) (l : List α) (pieces : List (List α)) : Prop where
  flatten_eq : pieces.flatten = l
  ne_nil : ∀ piece ∈ pieces, piece ≠ []
  length_le : ∀ piece ∈ pieces, piece.length ≤ capacity
  full : ∀ piece ∈ pieces.dropLast, piece.length = capacity

theorem cut_nil (capacity : ℕ) : Cut capacity ([] : List α) [] where
  flatten_eq := rfl
  ne_nil := by simp
  length_le := by simp
  full := by simp

/-- A first piece of full length, or of all that is left. -/
theorem Cut.cons {capacity : ℕ} (hpos : 0 < capacity) {l : List α} (hl : l ≠ [])
    {pieces : List (List α)} (h : Cut capacity (l.drop capacity) pieces) :
    Cut capacity l (l.take capacity :: pieces) where
  flatten_eq := by rw [List.flatten_cons, h.flatten_eq, List.take_append_drop]
  ne_nil := by
    intro piece hpiece
    rcases List.mem_cons.1 hpiece with rfl | hpiece
    · simp [hl, hpos.ne']
    · exact h.ne_nil piece hpiece
  length_le := by
    intro piece hpiece
    rcases List.mem_cons.1 hpiece with rfl | hpiece
    · exact List.length_take_le capacity l
    · exact h.length_le piece hpiece
  full := by
    intro piece hpiece
    -- the first piece is among all but the last only when something follows it
    have hne : pieces ≠ [] := by
      rintro rfl
      simp at hpiece
    rw [List.dropLast_cons_of_ne_nil hne] at hpiece
    rcases List.mem_cons.1 hpiece with rfl | hpiece
    · have hdrop : l.drop capacity ≠ [] := by
        rw [← h.flatten_eq]
        obtain ⟨first, rest, rfl⟩ := List.exists_cons_of_ne_nil hne
        have hfirst := h.ne_nil first List.mem_cons_self
        simp [hfirst]
      have hlt : capacity < l.length := by
        by_contra hle
        exact hdrop (List.drop_of_length_le (not_lt.1 hle))
      rw [List.length_take, min_eq_left hlt.le]
    · exact h.full piece hpiece

end Cut

section Separates

variable {κ : Type*} [LinearOrder κ]

/-- The number of separators that are not above the key. -/
def route (separators : List κ) (key : κ) : ℕ := separators.countP (· ≤ key)

/-- The pieces are the parts of a sorted list, and the separators their first keys, except that of
the first. -/
structure Separates (separators : List κ) (pieces : List (List κ)) : Prop where
  ne_nil : ∀ piece ∈ pieces, piece ≠ []
  sorted : pieces.flatten.Pairwise (· < ·)
  length_eq : separators.length + 1 = pieces.length
  head : ∀ i, separators[i]? = pieces[i + 1]?.bind List.head?

theorem route_cons_of_le {separator key : κ} (h : separator ≤ key) (separators : List κ) :
    route (separator :: separators) key = route separators key + 1 :=
  List.countP_cons_of_pos (by simpa using h)

theorem route_eq_zero {separators : List κ} {key : κ} (h : ∀ x ∈ separators, key < x) :
    route separators key = 0 :=
  List.countP_eq_zero.2 fun x hx => by simpa using h x hx

theorem route_le_length (separators : List κ) (key : κ) :
    route separators key ≤ separators.length := List.countP_le_length

/-- The separators that are counted are the first ones. -/
theorem le_iff_lt_route {separators : List κ} (hsorted : separators.Pairwise (· < ·)) {key x : κ}
    {i : ℕ} (hx : separators[i]? = some x) : x ≤ key ↔ i < route separators key := by
  induction separators generalizing i with
  | nil => simp at hx
  | cons first rest ih =>
    obtain ⟨hfirst, hrest⟩ := List.pairwise_cons.1 hsorted
    by_cases hle : first ≤ key
    · rw [route_cons_of_le hle]
      cases i with
      | zero =>
        obtain rfl : first = x := by simpa using hx
        exact iff_of_true hle (Nat.succ_pos _)
      | succ i =>
        rw [ih hrest (by simpa using hx)]
        omega
    · have habove : ∀ y ∈ first :: rest, key < y := by
        intro y hy
        rcases List.mem_cons.1 hy with rfl | hy
        · exact not_le.1 hle
        · exact (not_le.1 hle).trans (hfirst y hy)
      rw [route_eq_zero habove]
      exact iff_of_false (not_le.2 (habove x (List.mem_of_getElem? hx))) (Nat.not_lt_zero i)

variable {separators : List κ} {pieces : List (List κ)} {piece : List κ} {i j : ℕ} {key : κ}

/-- Earlier pieces hold smaller keys. -/
theorem Separates.lt_of_lt (h : Separates separators pieces) {later : List κ}
    (hi : pieces[i]? = some piece) (hj : pieces[j]? = some later) (hij : i < j) {x y : κ}
    (hx : x ∈ piece) (hy : y ∈ later) : x < y := by
  obtain ⟨hilen, rfl⟩ := List.getElem?_eq_some_iff.1 hi
  obtain ⟨hjlen, rfl⟩ := List.getElem?_eq_some_iff.1 hj
  exact List.pairwise_iff_getElem.1 (List.pairwise_flatten.1 h.sorted).2 i j hilen hjlen hij
    x hx y hy

/-- The first key of a piece, the separator before it, is its least one. -/
theorem Separates.exists_separator (h : Separates separators pieces)
    (hi : pieces[i + 1]? = some piece) :
    ∃ separator ∈ piece, separators[i]? = some separator ∧ ∀ x ∈ piece, separator ≤ x := by
  have hmem := List.mem_of_getElem? hi
  obtain ⟨separator, rest, rfl⟩ := List.exists_cons_of_ne_nil (h.ne_nil piece hmem)
  have hsorted := (List.pairwise_flatten.1 h.sorted).1 _ hmem
  refine ⟨separator, List.mem_cons_self, ?_, ?_⟩
  · rw [h.head, hi]
    rfl
  · intro x hx
    rcases List.mem_cons.1 hx with rfl | hx
    · exact le_rfl
    · exact (List.rel_of_pairwise_cons hsorted hx).le

theorem Separates.sorted_separators (h : Separates separators pieces) :
    separators.Pairwise (· < ·) := by
  refine List.pairwise_iff_getElem.2 fun i j hi hj hij => ?_
  have hlen := h.length_eq
  have hpiece (n : ℕ) (hn : n < separators.length) : ∃ x piece, pieces[n + 1]? = some piece ∧
      x ∈ piece ∧ separators[n] = x := by
    obtain ⟨x, hx, hsep, -⟩ := h.exists_separator
      (List.getElem?_eq_getElem (by omega : n + 1 < pieces.length))
    exact ⟨x, _, List.getElem?_eq_getElem _, hx, by simpa [hn] using hsep⟩
  obtain ⟨x, piece, hpieceI, hx, rfl⟩ := hpiece i hi
  obtain ⟨y, later, hpieceJ, hy, rfl⟩ := hpiece j hj
  exact h.lt_of_lt hpieceI hpieceJ (by omega) hx hy

theorem Separates.route_lt (h : Separates separators pieces) (key : κ) :
    route separators key < pieces.length := by
  have hle := route_le_length separators key
  have hlen := h.length_eq
  omega

/-- Every key before the chosen piece is below the one searched for. -/
theorem Separates.lt_of_lt_route (h : Separates separators pieces) (hi : pieces[i]? = some piece)
    (hroute : i < route separators key) {x : κ} (hx : x ∈ piece) : x < key := by
  have hlt : i + 1 < pieces.length := lt_of_le_of_lt hroute (h.route_lt key)
  have hnext := List.getElem?_eq_getElem hlt
  obtain ⟨separator, hmem, hsep, -⟩ := h.exists_separator hnext
  have hle := (le_iff_lt_route h.sorted_separators hsep).2 hroute
  exact (h.lt_of_lt hi hnext (Nat.lt_succ_self i) hx hmem).trans_le hle

/-- Every key after the chosen piece is above the one searched for. -/
theorem Separates.lt_of_route_lt (h : Separates separators pieces) (hi : pieces[i]? = some piece)
    (hroute : route separators key < i) {x : κ} (hx : x ∈ piece) : key < x := by
  obtain ⟨n, rfl⟩ := Nat.exists_eq_add_one_of_ne_zero (Nat.ne_zero_of_lt hroute)
  obtain ⟨separator, -, hsep, hleast⟩ := h.exists_separator hi
  have hlt : key < separator := by
    by_contra hle
    have hcount := (le_iff_lt_route h.sorted_separators hsep).1 (not_lt.1 hle)
    omega
  exact hlt.trans_le (hleast x hx)

/-- **Only the chosen piece can hold the key.** -/
theorem Separates.eq_route_of_mem (h : Separates separators pieces) (hi : pieces[i]? = some piece)
    (hkey : key ∈ piece) : i = route separators key := by
  rcases lt_trichotomy i (route separators key) with hlt | heq | hgt
  · exact absurd (h.lt_of_lt_route hi hlt hkey) (lt_irrefl key)
  · exact heq
  · exact absurd (h.lt_of_route_lt hi hgt hkey) (lt_irrefl key)

end Separates

end SortedPieces
