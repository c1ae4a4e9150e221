import VertexDB.Lib.Failure

/-!
# Two computations side by side

`Relates fails R V x y` says of two computations that, from states related by `R`, both throw the
same error or both return values related by `V`, and that the states are related again, also after
an error.  Where the second computation throws an error that satisfies `fails`, nothing is said;
`fails` is empty when the two must not differ at all.

One computation may be the other one on an abstract state, or the same one on states that differ
where it must not look.  The rules follow the structure of the computations: what is related step
by step is related as a whole.
-/

namespace Procedure

variable {σ τ ε α β α' β' : Type}

/-- Both throw the same error, or both return and the values are related. -/
inductive SameOutcome (V : α → β → Prop) : Except ε α → Except ε β → Prop
  | ok {a : α} {b : β} (h : V a b) : SameOutcome V (.ok a) (.ok b)
  | error (e : ε) : SameOutcome V (.error e) (.error e)

theorem sameOutcome_refl (r : Except ε α) : SameOutcome Eq r r := by
  cases r with
  | error e => exact .error e
  | ok a => exact .ok rfl

theorem SameOutcome.eq {r r' : Except ε α} (h : SameOutcome Eq r r') : r = r' := by
  cases h with
  | ok h => rw [h]
  | error e => rfl

/-- The ends of two computations: the same error or related values, and related states; or the
second one has failed. -/
inductive Related (fails : ε → Prop) (R : σ → τ → Prop) (V : α → β → Prop) :
    Except ε α × σ → Except ε β × τ → Prop
  | ok {a : α} {b : β} {s : σ} {t : τ} (hV : V a b) (hR : R s t) :
    Related fails R V (.ok a, s) (.ok b, t)
  | error (e : ε) {s : σ} {t : τ} (hR : R s t) : Related fails R V (.error e, s) (.error e, t)
  | fails {e : ε} (he : fails e) (r : Except ε α × σ) (t : τ) : Related fails R V r (.error e, t)

/-- From related states, the two computations end alike, unless the second one fails. -/
def Relates (fails : ε → Prop) (R : σ → τ → Prop) (V : α → β → Prop) (x : Procedure σ ε α)
    (y : Procedure τ ε β) : Prop := ∀ s t, R s t → Related fails R V (x s) (y t)

variable {fails : ε → Prop} {R : σ → τ → Prop} {V : α → β → Prop} {W : α' → β' → Prop}
  {x : Procedure σ ε α} {y : Procedure τ ε β}
  {f : α → Procedure σ ε α'} {g : β → Procedure τ ε β'}

theorem related_of_sameOutcome {r : Except ε α} {r' : Except ε β} {s : σ} {t : τ}
    (h : SameOutcome V r r') (hR : R s t) : Related fails R V (r, s) (r', t) := by
  cases h with
  | ok hV => exact .ok hV hR
  | error e => exact .error e hR

/-- Unless the second computation has failed, the states are related and so are the outcomes. -/
theorem Related.of_not_fails {p : Except ε α × σ} {p' : Except ε β × τ}
    (h : Related fails R V p p') (hnot : ∀ e, p'.1 = .error e → ¬ fails e) :
    SameOutcome V p.1 p'.1 ∧ R p.2 p'.2 := by
  cases h with
  | ok hV hR => exact ⟨.ok hV, hR⟩
  | error e hR => exact ⟨.error e, hR⟩
  | @fails e he _ _ => exact (hnot e rfl he).elim

/-! ### Rules -/

theorem relates_pure {a : α} {b : β} (h : V a b) :
    Relates fails R V (pure a : Procedure σ ε α) (pure b : Procedure τ ε β) :=
  fun _ _ hR => .ok h hR

theorem relates_throw (e : ε) :
    Relates fails R V (throw e : Procedure σ ε α) (throw e : Procedure τ ε β) :=
  fun _ _ hR => .error e hR

theorem relates_lift {r : Except ε α} {r' : Except ε β} (h : SameOutcome V r r') :
    Relates fails R V (lift r : Procedure σ ε α) (lift r' : Procedure τ ε β) :=
  fun _ _ hR => related_of_sameOutcome h hR

theorem relates_modify {change : σ → σ} {change' : τ → τ}
    (h : ∀ s t, R s t → R (change s) (change' t)) :
    Relates fails R Eq (modify change : Procedure σ ε PUnit)
      (modify change' : Procedure τ ε PUnit) :=
  fun s t hR => .ok rfl (h s t hR)

/-- Go on from two computations that end alike. -/
theorem Related.bind {s : σ} {t : τ} (h : Related fails R V (x s) (y t))
    (hnext : ∀ a b, V a b → Relates fails R W (f a) (g b)) :
    Related fails R W ((x >>= f) s) ((y >>= g) t) := by
  rcases hx : x s with ⟨r, s'⟩
  rcases hy : y t with ⟨r', t'⟩
  rw [hx, hy] at h
  cases h with
  | ok hV hR =>
    rw [bind_of_ok hx, bind_of_ok hy]
    exact hnext _ _ hV s' t' hR
  | error e hR =>
    rw [bind_of_error hx, bind_of_error hy]
    exact .error e hR
  | fails he =>
    rw [bind_of_error hy]
    exact .fails he _ _

theorem Relates.bind (h : Relates fails R V x y)
    (hnext : ∀ a b, V a b → Relates fails R W (f a) (g b)) :
    Relates fails R W (x >>= f) (y >>= g) := fun s t hR => (h s t hR).bind hnext

/-- What is read off related states may be used by what follows. -/
theorem relates_get_bind {f : σ → Procedure σ ε α} {g : τ → Procedure τ ε β}
    (h : ∀ s t, R s t → Related fails R V (f s s) (g t t)) :
    Relates fails R V (get >>= f) (get >>= g) := h

theorem relates_ite {c d : Prop} [Decidable c] [Decidable d] (hiff : c ↔ d)
    {x' : Procedure σ ε α} {y' : Procedure τ ε β} (h : Relates fails R V x y)
    (h' : Relates fails R V x' y') :
    Relates fails R V (if c then x else x') (if d then y else y') := by
  by_cases hc : c
  · rw [if_pos hc, if_pos (hiff.1 hc)]
    exact h
  · rw [if_neg hc, if_neg (fun hd => hc (hiff.2 hd))]
    exact h'

/-- Computations on a part of the state. -/
theorem relates_focus {σ' τ' : Type} {Q : σ' → τ' → Prop} {part : σ → σ'} {put : σ' → σ → σ}
    {part' : τ → τ'} {put' : τ' → τ → τ} {x : Procedure σ' ε α} {y : Procedure τ' ε β}
    (h : Relates fails Q V x y) (hpart : ∀ s t, R s t → Q (part s) (part' t))
    (hput : ∀ s t p p', R s t → Q p p' → R (put p s) (put' p' t)) :
    Relates fails R V (focus part put x) (focus part' put' y) := by
  intro s t hR
  have hends := h (part s) (part' t) (hpart s t hR)
  rw [focus_apply, focus_apply]
  rcases hx : x (part s) with ⟨r, p⟩
  rcases hy : y (part' t) with ⟨r', p'⟩
  rw [hx, hy] at hends
  cases hends with
  | ok hV hQ => exact .ok hV (hput s t p p' hR hQ)
  | error e hQ => exact .error e (hput s t p p' hR hQ)
  | fails he => exact .fails he _ _

end Procedure
