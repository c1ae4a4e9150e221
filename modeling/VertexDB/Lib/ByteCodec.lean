import VertexDB.Lib.Failure
import VertexDB.Lib.Reading

/-!
# Byte strings, little-endian fields and readers of them
-/

/-- A byte. -/
abbrev Byte := Fin 256

instance instNeZeroByte : NeZero 256 := ⟨by decide⟩

instance instLawfulBEqByte : LawfulBEq Byte := inferInstance

namespace ByteCodec

open Reading

/-! ### Little-endian fields -/

/-- The `width` low bytes of `n`, least significant byte first. -/
def leBytes : ℕ → ℕ → List Byte
  | 0, _ => []
  | width + 1, n => Fin.ofNat 256 n :: leBytes width (n / 256)

/-- The number written by a string of bytes, least significant byte first. -/
def ofLeBytes : List Byte → ℕ
  | [] => 0
  | b :: bs => b.val + 256 * ofLeBytes bs

@[simp] theorem length_leBytes (width n : ℕ) : (leBytes width n).length = width := by
  induction width generalizing n with
  | zero => rfl
  | succ width ih => simp [leBytes, ih]

theorem ofLeBytes_leBytes (width n : ℕ) : ofLeBytes (leBytes width n) = n % 256 ^ width := by
  induction width generalizing n with
  | zero => simp [leBytes, ofLeBytes, Nat.mod_one]
  | succ width ih =>
    simp only [leBytes, ofLeBytes, ih, Fin.val_ofNat]
    rw [Nat.pow_succ, Nat.mul_comm (256 ^ width) 256, Nat.mod_mul]

theorem ofLeBytes_leBytes_of_lt {width n : ℕ} (h : n < 256 ^ width) :
    ofLeBytes (leBytes width n) = n := by
  rw [ofLeBytes_leBytes, Nat.mod_eq_of_lt h]

/-! ### Readers -/

variable {ε α β : Type}

/-- A reader of byte strings, failing with an error of type `ε`. -/
abbrev Reader (ε : Type) := StateT (List Byte) (Except ε)

/-- Read `n` bytes, or fail with `e` when fewer remain. -/
def readBytes (e : ε) (n : ℕ) : Reader ε (List Byte) := fun bs =>
  if bs.length < n then .error e else .ok (bs.take n, bs.drop n)

/-- Read a little-endian field of `width` bytes. -/
def readLe (e : ε) (width : ℕ) : Reader ε ℕ := do
  let bs ← readBytes e width
  return ofLeBytes bs

/-- Read `n` values one after the other. -/
def readList (n : ℕ) (r : Reader ε α) : Reader ε (List α) :=
  match n with
  | 0 => return []
  | n + 1 => do
    let x ← r
    let xs ← readList n r
    return x :: xs

theorem reads_readBytes (e : ε) (bs : List Byte) : Reads (readBytes e bs.length) bs bs := by
  intro rest
  simp [readBytes]

theorem reads_readLe (e : ε) {width n : ℕ} (h : n < 256 ^ width) :
    Reads (readLe e width) n (leBytes width n) := by
  have hb := reads_readBytes e (leBytes width n)
  rw [length_leBytes] at hb
  refine hb.bind_nil ?_
  rw [ofLeBytes_leBytes_of_lt h]
  exact reads_pure n

theorem reads_readList {r : Reader ε β} {enc : α → List Byte} {g : α → β} {xs : List α}
    (h : ∀ x ∈ xs, Reads r (g x) (enc x)) :
    Reads (readList xs.length r) (xs.map g) (xs.flatMap enc) := by
  induction xs with
  | nil => exact reads_pure []
  | cons x xs ih =>
    rw [List.flatMap_cons]
    refine (h x List.mem_cons_self).bind ?_
    exact (ih fun y hy => h y (List.mem_cons_of_mem _ hy)).bind_nil (reads_pure _)

theorem local_readBytes (e : ε) (n : ℕ) : Local (readBytes e n) := by
  intro text x rest more hrun
  rw [readBytes] at hrun ⊢
  split_ifs at hrun with hshort
  cases hrun
  have hlong : ¬ (text ++ more).length < n := by
    rw [List.length_append]
    omega
  rw [if_neg hlong, List.take_append_of_le_length (not_lt.1 hshort),
    List.drop_append_of_le_length (not_lt.1 hshort)]

theorem local_readLe (e : ε) (width : ℕ) : Local (readLe e width) :=
  (local_readBytes e width).bind fun _ => local_pure _

/-! ### Lengths -/

theorem spans_readBytes (e : ε) (n : ℕ) : Spans (fun _ => n) (readBytes e n) := by
  intro text bs rest h
  rw [readBytes] at h
  split_ifs at h with hshort
  cases h
  change n + (text.drop n).length = text.length
  rw [List.length_drop]
  omega

theorem spans_length_readBytes (e : ε) (n : ℕ) : Spans List.length (readBytes e n) := by
  intro text bs rest h
  rw [readBytes] at h
  split_ifs at h with hshort
  cases h
  rw [List.length_take, List.length_drop]
  omega

theorem spans_readLe (e : ε) (width : ℕ) : Spans (fun _ => width) (readLe e width) := by
  intro text n rest h
  obtain ⟨bs, mid, hbytes, hlast⟩ := Failure.bind_apply_eq_ok_iff.1 h
  cases hlast
  exact spans_readBytes e width text bs _ hbytes

theorem spans_readList {r : Reader ε α} {size : α → ℕ} (h : Spans size r) (n : ℕ) :
    Spans (fun xs => (xs.map size).sum) (readList n r) := by
  induction n with
  | zero =>
    rintro text _ _ ⟨⟩
    simp
  | succ n ih =>
    intro text xs rest hread
    obtain ⟨x, mid, hx, hread⟩ := Failure.bind_apply_eq_ok_iff.1 hread
    obtain ⟨tail, last, htail, hread⟩ := Failure.bind_apply_eq_ok_iff.1 hread
    cases hread
    have hfirst := h _ _ _ hx
    have hothers := ih _ _ _ htail
    simp only [List.map_cons, List.sum_cons] at hothers ⊢
    omega

/-- Writing some of the elements takes no more room than writing all. -/
theorem length_flatMap_le_of_subset (enc : α → List Byte) {xs ys : List α} (hnodup : xs.Nodup)
    (h : xs ⊆ ys) : (xs.flatMap enc).length ≤ (ys.flatMap enc).length := by
  obtain ⟨zs, hperm, hsub⟩ := hnodup.subperm h
  rw [List.length_flatMap, List.length_flatMap, ← (hperm.map fun x => (enc x).length).sum_eq]
  exact (hsub.map fun x => (enc x).length).sum_le_sum fun _ _ => Nat.zero_le _

theorem length_le_flatMap_of_mem (enc : α → List Byte) {xs : List α} {x : α} (h : x ∈ xs) :
    (enc x).length ≤ (xs.flatMap enc).length := by
  obtain ⟨before, after, rfl⟩ := List.append_of_mem h
  simp only [List.flatMap_append, List.flatMap_cons, List.length_append]
  omega

theorem length_le_length_flatMap (enc : α → List Byte) (xs : List α)
    (h : ∀ x ∈ xs, 0 < (enc x).length) : xs.length ≤ (xs.flatMap enc).length := by
  induction xs with
  | nil => simp
  | cons x xs ih =>
    have hx := h x List.mem_cons_self
    have hxs := ih fun y hy => h y (List.mem_cons_of_mem _ hy)
    rw [List.flatMap_cons, List.length_append, List.length_cons]
    omega

end ByteCodec
