import VertexDB.Lib.Failure

/-!
# Readers that make progress

A discipline says where a reader may stand in a list of symbols, which symbols it may take and
which errors must not occur.  `Keeps n k r` says that `r` keeps to the discipline from every
position with at most `n` symbols left and takes `k` symbols or more.  The rules follow the
structure of a reader that is written with `do`.  A recursive reader with a bound on its recursion
keeps to the discipline as long as the bound is no less than the number of symbols left, because
every level takes a symbol; and then the bound does not matter (`AgreeTo`).
-/

namespace Progress

open Failure

/-- What readers keep to. -/
structure Discipline (σ ε : Type) where
  /-- The positions, each given by the symbols that are left. -/
  stands : List σ → Prop
  /-- The symbols that may be taken. -/
  takes : σ → Prop
  /-- The errors that must not occur. -/
  fault : ε → Prop
  /-- There is no position behind the last symbol. -/
  ne_nil_of_stands : ∀ {text}, stands text → text ≠ []
  /-- Taking a symbol leads to a position. -/
  stands_of_takes : ∀ {symbol text}, takes symbol → stands (symbol :: text) → stands text

variable {σ ε α β : Type}

namespace Discipline

variable (d : Discipline σ ε)

/-- From positions with at most `n` symbols left, `r` raises no fault and takes at least `k`
symbols. -/
structure Keeps (n k : ℕ) (r : StateT (List σ) (Except ε) α) : Prop where
  error : ∀ text e, d.stands text → text.length ≤ n → r text = .error e → ¬ d.fault e
  ok : ∀ text x rest, d.stands text → text.length ≤ n → r text = .ok (x, rest) →
    ∃ taken, text = taken ++ rest ∧ k ≤ taken.length ∧ ∀ symbol ∈ taken, d.takes symbol

variable {d} {n m k l : ℕ} {r r' : StateT (List σ) (Except ε) α}
  {f f' : α → StateT (List σ) (Except ε) β}

theorem stands_of_append {taken rest : List σ} (htaken : ∀ symbol ∈ taken, d.takes symbol)
    (h : d.stands (taken ++ rest)) : d.stands rest := by
  induction taken with
  | nil => exact h
  | cons symbol taken ih =>
    obtain ⟨hsymbol, hothers⟩ := List.forall_mem_cons.1 htaken
    exact ih hothers (d.stands_of_takes hsymbol h)

/-- Where a reader leaves off. -/
theorem Keeps.next (h : d.Keeps n k r) {text rest : List σ} {x : α} (hstands : d.stands text)
    (hle : text.length ≤ n) (hr : r text = .ok (x, rest)) :
    d.stands rest ∧ rest.length + k ≤ text.length := by
  obtain ⟨taken, rfl, hk, htaken⟩ := h.ok text x rest hstands hle hr
  refine ⟨stands_of_append htaken hstands, ?_⟩
  rw [List.length_append]
  omega

theorem keeps_pure (x : α) : d.Keeps n 0 (pure x : StateT (List σ) (Except ε) α) where
  error := by rintro text e - - ⟨⟩
  ok := by
    rintro text _ _ - - ⟨⟩
    exact ⟨[], rfl, le_rfl, by simp⟩

theorem keeps_throw {e : ε} (h : ¬ d.fault e) :
    d.Keeps n k (throw e : StateT (List σ) (Except ε) α) where
  error := by
    rintro text _ - - ⟨⟩
    exact h
  ok := by rintro text x rest - - ⟨⟩

theorem keeps_lift {x : Except ε α} (h : ∀ e, x = .error e → ¬ d.fault e) :
    d.Keeps n 0 (liftM x : StateT (List σ) (Except ε) α) := by
  cases x with
  | error e => exact keeps_throw (h e rfl)
  | ok a => exact keeps_pure a

/-- There is no position with no symbol left. -/
theorem keeps_zero (r : StateT (List σ) (Except ε) α) : d.Keeps 0 k r where
  error _ _ hstands hle :=
    absurd (List.length_eq_zero_iff.1 (Nat.le_zero.1 hle)) (d.ne_nil_of_stands hstands)
  ok _ _ _ hstands hle :=
    absurd (List.length_eq_zero_iff.1 (Nat.le_zero.1 hle)) (d.ne_nil_of_stands hstands)

theorem Keeps.mono (h : d.Keeps n k r) (hm : m ≤ n) (hl : l ≤ k) : d.Keeps m l r where
  error text e hstands hle := h.error text e hstands (hle.trans hm)
  ok text x rest hstands hle hr := by
    obtain ⟨taken, htext, hk, htaken⟩ := h.ok text x rest hstands (hle.trans hm) hr
    exact ⟨taken, htext, hl.trans hk, htaken⟩

/-- A discipline that asks for less. -/
theorem Keeps.relax {d' : Discipline σ ε} (h : d.Keeps n k r)
    (hstands : ∀ text, d'.stands text → d.stands text)
    (htakes : ∀ symbol, d.takes symbol → d'.takes symbol) (hfault : ∀ e, d'.fault e → d.fault e) :
    d'.Keeps n k r where
  error text e hd hle hr := fun he => h.error text e (hstands text hd) hle hr (hfault e he)
  ok text x rest hd hle hr := by
    obtain ⟨taken, htext, hk, htaken⟩ := h.ok text x rest (hstands text hd) hle hr
    exact ⟨taken, htext, hk, fun symbol hmem => htakes symbol (htaken symbol hmem)⟩

/-- A first step that takes a symbol and goes on with another reader, or goes on without it. -/
theorem keeps_of_step
    (h : ∀ text, d.stands text →
      (∃ symbol rest r', d.takes symbol ∧ text = symbol :: rest ∧ r text = r' rest ∧
        d.Keeps (n - 1) (k - 1) r') ∨
      ∃ r', r text = r' text ∧ d.Keeps n k r') : d.Keeps n k r where
  error text e hstands hle hrun := by
    rcases h text hstands with ⟨symbol, rest, r', htakes, rfl, heq, hr'⟩ | ⟨r', heq, hr'⟩
    · rw [heq] at hrun
      have hrest : d.stands rest := d.stands_of_takes htakes hstands
      exact hr'.error rest e hrest (Nat.le_sub_one_of_lt hle) hrun
    · rw [heq] at hrun
      exact hr'.error text e hstands hle hrun
  ok text x rest hstands hle hrun := by
    rcases h text hstands with ⟨symbol, mid, r', htakes, rfl, heq, hr'⟩ | ⟨r', heq, hr'⟩
    · rw [heq] at hrun
      have hmid : d.stands mid := d.stands_of_takes htakes hstands
      obtain ⟨taken, rfl, hk, htaken⟩ := hr'.ok mid x rest hmid (Nat.le_sub_one_of_lt hle) hrun
      refine ⟨symbol :: taken, rfl, ?_, List.forall_mem_cons.2 ⟨htakes, htaken⟩⟩
      rw [List.length_cons]
      omega
    · rw [heq] at hrun
      exact hr'.ok text x rest hstands hle hrun

/-- One reader after another: what the first one takes is no longer left to the second one. -/
theorem Keeps.bind (h : d.Keeps n k r) (hf : ∀ x, d.Keeps (n - k) l (f x)) :
    d.Keeps n (k + l) (r >>= f) where
  error text e hstands hle hrun := by
    cases hr : r text with
    | error e' =>
      rw [bind_apply, hr] at hrun
      cases hrun
      exact h.error text e hstands hle hr
    | ok p =>
      obtain ⟨x, rest⟩ := p
      rw [bind_apply_of_eq hr] at hrun
      obtain ⟨hrest, hlength⟩ := h.next hstands hle hr
      exact (hf x).error rest e hrest (by omega) hrun
  ok text y rest hstands hle hrun := by
    obtain ⟨x, mid, hr, hfx⟩ := bind_apply_eq_ok_iff.1 hrun
    obtain ⟨hmid, hlength⟩ := h.next hstands hle hr
    obtain ⟨taken, rfl, hk, htaken⟩ := h.ok text x mid hstands hle hr
    obtain ⟨taken', rfl, hl, htaken'⟩ := (hf x).ok mid y rest hmid (by omega) hfx
    refine ⟨taken ++ taken', (List.append_assoc _ _ _).symm, ?_, ?_⟩
    · rw [List.length_append]
      omega
    · exact List.forall_mem_append.2 ⟨htaken, htaken'⟩

/-- The first reader takes as much as is asked for. -/
theorem Keeps.andThen (h : d.Keeps n k r) (hf : ∀ x, d.Keeps n 0 (f x)) : d.Keeps n k (r >>= f) :=
  h.bind fun x => (hf x).mono (Nat.sub_le _ _) le_rfl

/-- Nothing is asked for. -/
theorem Keeps.followed (h : d.Keeps n k r) (hf : ∀ x, d.Keeps n 0 (f x)) : d.Keeps n 0 (r >>= f) :=
  (h.andThen hf).mono le_rfl (Nat.zero_le _)

theorem keeps_ite {c : Prop} [Decidable c] (h : d.Keeps n k r) (h' : d.Keeps n k r') :
    d.Keeps n k (if c then r else r') := by
  by_cases hc : c
  · rw [if_pos hc]; exact h
  · rw [if_neg hc]; exact h'

/-- A reader that starts by counting the symbols left. -/
theorem keeps_get_bind {f : List σ → StateT (List σ) (Except ε) α}
    (h : ∀ text : List σ, text.length ≤ n → d.Keeps text.length k (f text)) :
    d.Keeps n k (get >>= f) where
  error text e hstands hle := (h text hle).error text e hstands le_rfl
  ok text x rest hstands hle := (h text hle).ok text x rest hstands le_rfl

/-! ### Bounds that do not matter -/

variable (d) in
/-- The readers do the same from positions with at most `n` symbols left. -/
def AgreeTo (n : ℕ) (r r' : StateT (List σ) (Except ε) α) : Prop :=
  ∀ text, d.stands text → text.length ≤ n → r text = r' text

theorem agreeTo_refl (r : StateT (List σ) (Except ε) α) : d.AgreeTo n r r := fun _ _ _ => rfl

theorem agreeTo_zero (r r' : StateT (List σ) (Except ε) α) : d.AgreeTo 0 r r' :=
  fun _ hstands hle =>
    absurd (List.length_eq_zero_iff.1 (Nat.le_zero.1 hle)) (d.ne_nil_of_stands hstands)

theorem AgreeTo.symm (h : d.AgreeTo n r r') : d.AgreeTo n r' r :=
  fun text hstands hle => (h text hstands hle).symm

theorem AgreeTo.mono (h : d.AgreeTo n r r') (hm : m ≤ n) : d.AgreeTo m r r' :=
  fun text hstands hle => h text hstands (hle.trans hm)

theorem AgreeTo.bind (h : d.AgreeTo n r r') (hr : d.Keeps n k r)
    (hf : ∀ x, d.AgreeTo (n - k) (f x) (f' x)) : d.AgreeTo n (r >>= f) (r' >>= f') := by
  intro text hstands hle
  rw [bind_apply, bind_apply, ← h text hstands hle]
  cases hrun : r text with
  | error e => rfl
  | ok p =>
    obtain ⟨hrest, hlength⟩ := hr.next hstands hle hrun
    exact hf p.1 p.2 hrest (by omega)

theorem agreeTo_get_bind {f f' : List σ → StateT (List σ) (Except ε) α}
    (h : ∀ text : List σ, text.length ≤ n → d.AgreeTo text.length (f text) (f' text)) :
    d.AgreeTo n (get >>= f) (get >>= f') :=
  fun text hstands hle => h text hle text hstands le_rfl

theorem agreeTo_ite {c : Prop} [Decidable c] {q q' : StateT (List σ) (Except ε) α}
    (h : d.AgreeTo n r r') (h' : d.AgreeTo n q q') :
    d.AgreeTo n (if c then r else q) (if c then r' else q') := by
  by_cases hc : c
  · rw [if_pos hc, if_pos hc]; exact h
  · rw [if_neg hc, if_neg hc]; exact h'

end Discipline

end Progress
