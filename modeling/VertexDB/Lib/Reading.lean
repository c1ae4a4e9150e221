import Mathlib

/-!
# Sequential readers

A reader consumes a list of symbols from the left and either returns a value with the remaining
symbols or fails.  `Reads r x xs` says that `r` reads `x` off `xs`, whatever follows;
`ReadsBefore stop r x xs` says so when what follows satisfies `stop`, for readers that look ahead.
What is to be read is built by concatenation and readers by `bind`; the lemmas on `bind` match the
two, so that a round trip is assembled from those of the parts.

A reader that never looks ahead (`Local`) reads the same whatever comes after what it has read; it
therefore fails on every proper prefix of what it reads (`Local.error_of_torn`).

`Spans size r` says how many symbols `r` consumes, whatever it is given.
-/

namespace Reading

variable {σ ε α β : Type}

/-- `r` reads `x` off `xs` when `stop` holds of what follows. -/
def ReadsBefore (stop : List σ → Prop) (r : StateT (List σ) (Except ε) α) (x : α) (xs : List σ) :
    Prop := ∀ rest, stop rest → r (xs ++ rest) = .ok (x, rest)

/-- `r` reads `x` off `xs` and leaves what follows. -/
def Reads (r : StateT (List σ) (Except ε) α) (x : α) (xs : List σ) : Prop :=
  ∀ rest, r (xs ++ rest) = .ok (x, rest)

variable {r : StateT (List σ) (Except ε) α} {f : α → StateT (List σ) (Except ε) β} {x : α} {y : β}
  {xs ys : List σ} {stop stop' : List σ → Prop}

theorem Reads.before (h : Reads r x xs) : ReadsBefore stop r x xs := fun rest _ => h rest

theorem ReadsBefore.mono (h : ReadsBefore stop r x xs) (hs : ∀ rest, stop' rest → stop rest) :
    ReadsBefore stop' r x xs := fun rest hrest => h rest (hs rest hrest)

theorem reads_pure (x : α) : Reads (pure x : StateT (List σ) (Except ε) α) x [] := fun _ => rfl

/-- One reader after another; what the second one reads lets the first one stop. -/
theorem ReadsBefore.bind (h : ReadsBefore stop r x xs) (h' : ReadsBefore stop' (f x) y ys)
    (hs : ∀ rest, stop' rest → stop (ys ++ rest)) : ReadsBefore stop' (r >>= f) y (xs ++ ys) := by
  intro rest hrest
  rw [List.append_assoc]
  change (r (xs ++ (ys ++ rest)) >>= fun p => f p.1 p.2) = _
  rw [h (ys ++ rest) (hs rest hrest)]
  exact h' rest hrest

theorem Reads.bind_before (h : Reads r x xs) (h' : ReadsBefore stop (f x) y ys) :
    ReadsBefore stop (r >>= f) y (xs ++ ys) := by
  have htrue : ReadsBefore (fun _ => True) r x xs := h.before
  exact htrue.bind h' fun _ _ => trivial

theorem Reads.bind (h : Reads r x xs) (h' : Reads (f x) y ys) : Reads (r >>= f) y (xs ++ ys) := by
  have htrue : ReadsBefore (fun _ => True) (f x) y ys := h'.before
  exact fun rest => h.bind_before htrue rest trivial

/-- A first step that reads nothing. -/
theorem Reads.nil_bind (h : Reads r x []) (h' : Reads (f x) y ys) : Reads (r >>= f) y ys :=
  h.bind h'

/-- A last step that reads nothing. -/
theorem Reads.bind_nil (h : Reads r x xs) (h' : Reads (f x) y []) : Reads (r >>= f) y xs := by
  have := h.bind h'
  rwa [List.append_nil] at this

theorem ReadsBefore.bind_nil (h : ReadsBefore stop r x xs) (h' : ReadsBefore stop (f x) y []) :
    ReadsBefore stop (r >>= f) y xs := by
  have := h.bind h' fun rest hrest => hrest
  rwa [List.append_nil] at this

/-! ### What is read is determined -/

/-- Of two texts that one reader reads, neither goes on in another way than the other. -/
theorem Reads.eq_of_append_eq {y : α} (h : Reads r x xs) (h' : Reads r y ys) {rest rest' : List σ}
    (heq : xs ++ rest = ys ++ rest') : x = y ∧ rest = rest' := by
  have hread := h rest
  rw [heq, h' rest'] at hread
  cases hread
  exact ⟨rfl, rfl⟩

/-- No text that a reader reads is a proper prefix of another. -/
theorem Reads.eq_of_isPrefix {y : α} (h : Reads r x xs) (h' : Reads r y ys) (hstarts : xs <+: ys) :
    x = y ∧ xs = ys := by
  obtain ⟨more, rfl⟩ := hstarts
  obtain ⟨hvalue, hmore⟩ := h.eq_of_append_eq h' (List.append_nil (xs ++ more)).symm
  exact ⟨hvalue, by rw [hmore, List.append_nil]⟩

/-! ### Readers that do not look ahead -/

/-- What comes after does not change what is read. -/
def Local (r : StateT (List σ) (Except ε) α) : Prop :=
  ∀ text x rest more, r text = .ok (x, rest) → r (text ++ more) = .ok (x, rest ++ more)

theorem local_pure (x : α) : Local (pure x : StateT (List σ) (Except ε) α) := by
  rintro text _ _ more ⟨⟩
  rfl

theorem local_throw (e : ε) : Local (throw e : StateT (List σ) (Except ε) α) := by
  rintro text x rest more ⟨⟩

theorem Local.bind (h : Local r) (h' : ∀ x, Local (f x)) : Local (r >>= f) := by
  intro text y rest more hrun
  change (r text >>= fun p => f p.1 p.2) = _ at hrun
  change (r (text ++ more) >>= fun p => f p.1 p.2) = _
  cases hr : r text with
  | error e => rw [hr] at hrun; cases hrun
  | ok p =>
    rw [hr] at hrun
    rw [h text p.1 p.2 more hr]
    exact h' p.1 p.2 y rest more hrun

theorem local_ite {c : Prop} [Decidable c] {r' : StateT (List σ) (Except ε) α} (h : Local r)
    (h' : Local r') : Local (if c then r else r') := by
  by_cases hc : c
  · rw [if_pos hc]; exact h
  · rw [if_neg hc]; exact h'

/-- A text that is cut short is not read. -/
theorem Local.error_of_torn (h : Local r) (hread : Reads r x xs) (htorn : ys <+: xs)
    (hne : ys ≠ xs) : ∃ e, r ys = .error e := by
  obtain ⟨more, rfl⟩ := htorn
  cases hr : r ys with
  | error e => exact ⟨e, rfl⟩
  | ok p =>
    have hlonger := h ys p.1 p.2 more hr
    have hwhole := hread []
    rw [List.append_nil, hlonger] at hwhole
    have hrest : p.2 ++ more = [] := congrArg Prod.snd (Except.ok.inj hwhole)
    rw [(List.append_eq_nil_iff.1 hrest).2, List.append_nil] at hne
    exact absurd rfl hne

/-! ### How much is read -/

/-- Reading `x` consumes `size x` symbols. -/
def Spans (size : α → ℕ) (r : StateT (List σ) (Except ε) α) : Prop :=
  ∀ text x rest, r text = .ok (x, rest) → size x + rest.length = text.length

end Reading
