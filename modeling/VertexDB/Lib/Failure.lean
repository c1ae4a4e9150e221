import Mathlib

/-!
# Computations that may fail

Inversion of `bind` for `Except`, for state over `Except`, and for `Procedure`, in which the changes
made before a failure stay: a composite computation succeeds exactly when its parts do.  A proof
about a program written with `do` peels it apart with these lemmas and never unfolds the monad.
`Ensures` and `Procedure.Keeps` are the rules for invariants of the state, `Procedure.Yields` those
for what is returned, and `Avoids` and `AvoidsFrom` those for an error that never occurs.
-/

namespace Failure

variable {ε σ α β : Type}

@[simp] theorem ok_bind (a : α) (f : α → Except ε β) : (Except.ok a >>= f) = f a := rfl

@[simp] theorem error_bind (e : ε) (f : α → Except ε β) :
    (Except.error e >>= f) = Except.error e := rfl

@[simp] theorem pure_eq_ok (a : α) : (pure a : Except ε α) = .ok a := rfl

@[simp] theorem throw_eq_error (e : ε) : (throw e : Except ε α) = .error e := rfl

theorem bind_eq_ok_iff {x : Except ε α} {f : α → Except ε β} {b : β} :
    (x >>= f) = .ok b ↔ ∃ a, x = .ok a ∧ f a = .ok b := by
  cases x with
  | error e => simp
  | ok a => simp

theorem bind_eq_error_iff {x : Except ε α} {f : α → Except ε β} {e : ε} :
    (x >>= f) = .error e ↔ x = .error e ∨ ∃ a, x = .ok a ∧ f a = .error e := by
  cases x with
  | error e' => simp
  | ok a => simp

/-! ### State over `Except` -/

theorem bind_apply (x : StateT σ (Except ε) α) (f : α → StateT σ (Except ε) β) (s : σ) :
    (x >>= f) s = (x s >>= fun p => f p.1 p.2) := rfl

@[simp] theorem pure_apply (a : α) (s : σ) :
    (pure a : StateT σ (Except ε) α) s = .ok (a, s) := rfl

@[simp] theorem throw_apply (e : ε) (s : σ) :
    (throw e : StateT σ (Except ε) α) s = .error e := rfl

theorem bind_apply_eq_ok_iff {x : StateT σ (Except ε) α} {f : α → StateT σ (Except ε) β} {s s'' : σ}
    {b : β} : (x >>= f) s = .ok (b, s'') ↔ ∃ a s', x s = .ok (a, s') ∧ f a s' = .ok (b, s'') := by
  simp only [bind_apply, bind_eq_ok_iff, Prod.exists]

theorem bind_apply_of_eq {x : StateT σ (Except ε) α} {f : α → StateT σ (Except ε) β} {s s' : σ}
    {a : α} (h : x s = .ok (a, s')) : (x >>= f) s = f a s' := by
  rw [bind_apply, h]; rfl

/-- From a state that satisfies `inv`, what `x` returns satisfies `post` and the state that it
leaves satisfies `inv`. -/
def Ensures (inv : σ → Prop) (x : StateT σ (Except ε) α) (post : α → Prop) : Prop :=
  ∀ s a s', inv s → x s = .ok (a, s') → post a ∧ inv s'

section Ensures

variable {inv : σ → Prop} {x y : StateT σ (Except ε) α} {f : α → StateT σ (Except ε) β}
  {post : α → Prop} {post' : β → Prop}

theorem ensures_pure {a : α} (h : post a) : Ensures inv (pure a : StateT σ (Except ε) α) post := by
  rintro s _ _ hs ⟨⟩
  exact ⟨h, hs⟩

theorem ensures_throw (e : ε) : Ensures inv (throw e : StateT σ (Except ε) α) post := by
  rintro s _ _ _ ⟨⟩

theorem ensures_lift {r : Except ε α} (hr : ∀ a, r = .ok a → post a) :
    Ensures inv (liftM r : StateT σ (Except ε) α) post := by
  intro s a s' hs h
  cases r with
  | error e => cases h
  | ok b => cases h; exact ⟨hr a rfl, hs⟩

theorem Ensures.bind (h : Ensures inv x post) (h' : ∀ a, post a → Ensures inv (f a) post') :
    Ensures inv (x >>= f) post' := by
  intro s b s'' hs hok
  obtain ⟨a, s', hx, hf⟩ := bind_apply_eq_ok_iff.1 hok
  obtain ⟨ha, hs'⟩ := h s a s' hs hx
  exact h' a ha s' b s'' hs' hf

theorem ensures_get_bind {f : σ → StateT σ (Except ε) β} (h : ∀ s, Ensures inv (f s) post') :
    Ensures inv (get >>= f) post' := fun s b s' hs hok => h s s b s' hs hok

theorem Ensures.mono {post'' : α → Prop} (h : Ensures inv x post) (himp : ∀ a, post a → post'' a) :
    Ensures inv x post'' := fun s a s' hs hok =>
  let ⟨ha, hs'⟩ := h s a s' hs hok
  ⟨himp a ha, hs'⟩

theorem ensures_ite {c : Prop} [Decidable c] (hx : c → Ensures inv x post)
    (hy : ¬ c → Ensures inv y post) : Ensures inv (if c then x else y) post := by
  by_cases h : c
  · rw [if_pos h]; exact hx h
  · rw [if_neg h]; exact hy h

end Ensures

/-! ### Errors that do not occur -/

/-- The computation does not fail with this error. -/
def Avoids (e : ε) (x : Except ε α) : Prop := x ≠ .error e

section Avoids

variable {e e' : ε} {x y : Except ε α} {f : α → Except ε β}

theorem avoids_ok (a : α) : Avoids e (.ok a : Except ε α) := by rintro ⟨⟩

theorem avoids_throw (h : e' ≠ e) : Avoids e (throw e' : Except ε α) := by
  rintro ⟨⟩
  exact h rfl

theorem Avoids.bind (hx : Avoids e x) (hf : ∀ a, x = .ok a → Avoids e (f a)) :
    Avoids e (x >>= f) := by
  intro h
  rcases bind_eq_error_iff.1 h with hx' | ⟨a, ha, hf'⟩
  · exact hx hx'
  · exact hf a ha hf'

theorem avoids_ite {c : Prop} [Decidable c] (hx : c → Avoids e x) (hy : ¬ c → Avoids e y) :
    Avoids e (if c then x else y) := by
  split_ifs with h
  · exact hx h
  · exact hy h

end Avoids

/-- The same for a computation with a state, whatever the state. -/
def AvoidsFrom (e : ε) (x : StateT σ (Except ε) α) : Prop := ∀ s, Avoids e (x s)

section AvoidsFrom

variable {e e' : ε} {x y : StateT σ (Except ε) α} {f : α → StateT σ (Except ε) β}

theorem avoidsFrom_pure (a : α) : AvoidsFrom e (pure a : StateT σ (Except ε) α) :=
  fun _ => avoids_ok _

theorem avoidsFrom_throw (h : e' ≠ e) : AvoidsFrom e (throw e' : StateT σ (Except ε) α) :=
  fun _ => avoids_throw h

theorem avoidsFrom_lift {r : Except ε α} (h : Avoids e r) :
    AvoidsFrom e (liftM r : StateT σ (Except ε) α) := by
  intro s
  cases r with
  | error e' => exact avoids_throw fun heq => h (heq ▸ rfl)
  | ok a => exact avoids_ok _

theorem AvoidsFrom.bind (hx : AvoidsFrom e x) (hf : ∀ a, AvoidsFrom e (f a)) :
    AvoidsFrom e (x >>= f) := fun s => Avoids.bind (hx s) fun p _ => hf p.1 p.2

theorem avoidsFrom_ite {c : Prop} [Decidable c] (hx : c → AvoidsFrom e x)
    (hy : ¬ c → AvoidsFrom e y) : AvoidsFrom e (if c then x else y) := by
  split_ifs with h
  · exact hx h
  · exact hy h

end AvoidsFrom

end Failure

/-- A computation over a state that returns a value or fails.  What it has changed before it
fails stays changed. -/
def Procedure (σ ε α : Type) : Type := σ → Except ε α × σ

namespace Procedure

variable {σ τ ε α β : Type}

instance : Monad (Procedure σ ε) where
  pure a := fun s => (.ok a, s)
  bind x f := fun s => match x s with
    | (.ok a, s') => f a s'
    | (.error e, s') => (.error e, s')

instance : MonadExceptOf ε (Procedure σ ε) where
  throw e := fun s => (.error e, s)
  tryCatch x handle := fun s => match x s with
    | (.ok a, s') => (.ok a, s')
    | (.error e, s') => handle e s'

instance : MonadStateOf σ (Procedure σ ε) where
  get := fun s => (.ok s, s)
  set s := fun _ => (.ok (), s)
  modifyGet f := fun s => (.ok (f s).1, (f s).2)

/-- A computation that does not look at the state. -/
def lift (x : Except ε α) : Procedure σ ε α := fun s => (x, s)

/-- A computation on a part of the state. -/
def focus (part : σ → τ) (put : τ → σ → σ) (x : Procedure τ ε α) : Procedure σ ε α := fun s =>
  ((x (part s)).1, put (x (part s)).2 s)

@[simp] theorem pure_apply (a : α) (s : σ) : (pure a : Procedure σ ε α) s = (.ok a, s) := rfl

@[simp] theorem throw_apply (e : ε) (s : σ) : (throw e : Procedure σ ε α) s = (.error e, s) := rfl

@[simp] theorem get_apply (s : σ) : (get : Procedure σ ε σ) s = (.ok s, s) := rfl

@[simp] theorem set_apply (s s' : σ) : (set s' : Procedure σ ε PUnit) s = (.ok (), s') := rfl

@[simp] theorem modify_apply (f : σ → σ) (s : σ) :
    (modify f : Procedure σ ε PUnit) s = (.ok (), f s) := rfl

@[simp] theorem lift_apply (x : Except ε α) (s : σ) : (lift x : Procedure σ ε α) s = (x, s) := rfl

theorem focus_apply (part : σ → τ) (put : τ → σ → σ) (x : Procedure τ ε α) (s : σ) :
    focus part put x s = ((x (part s)).1, put (x (part s)).2 s) := rfl

theorem eq_of_fst_eq {x : Procedure σ ε α} {s : σ} {r : Except ε α} (h : (x s).1 = r) :
    x s = (r, (x s).2) := Prod.ext h rfl

theorem bind_of_ok {x : Procedure σ ε α} {f : α → Procedure σ ε β} {s s' : σ} {a : α}
    (h : x s = (.ok a, s')) : (x >>= f) s = f a s' := by
  change (match x s with
    | (.ok a, s') => f a s'
    | (.error e, s') => (.error e, s')) = _
  rw [h]

theorem bind_of_error {x : Procedure σ ε α} {f : α → Procedure σ ε β} {s s' : σ} {e : ε}
    (h : x s = (.error e, s')) : (x >>= f) s = (.error e, s') := by
  change (match x s with
    | (.ok a, s') => f a s'
    | (.error e, s') => (.error e, s')) = _
  rw [h]

@[simp] theorem pure_bind (a : α) (f : α → Procedure σ ε β) : (pure a >>= f) = f a := rfl

@[simp] theorem get_bind (f : σ → Procedure σ ε β) (s : σ) : (get >>= f) s = f s s := rfl

@[simp] theorem modify_bind (g : σ → σ) (f : PUnit → Procedure σ ε β) (s : σ) :
    ((modify g : Procedure σ ε PUnit) >>= f) s = f () (g s) := rfl

@[simp] theorem set_bind (s' : σ) (f : PUnit → Procedure σ ε β) (s : σ) :
    ((set s' : Procedure σ ε PUnit) >>= f) s = f () s' := rfl

@[simp] theorem lift_ok_bind (a : α) (f : α → Procedure σ ε β) : (lift (.ok a) >>= f) = f a := rfl

@[simp] theorem lift_error_bind (e : ε) (f : α → Procedure σ ε β) (s : σ) :
    (lift (.error e) >>= f) s = (.error e, s) := rfl

@[simp] theorem throw_bind (e : ε) (f : α → Procedure σ ε β) (s : σ) :
    ((throw e : Procedure σ ε α) >>= f) s = (.error e, s) := rfl

theorem bind_eq_ok_iff {x : Procedure σ ε α} {f : α → Procedure σ ε β} {s s'' : σ} {b : β} :
    (x >>= f) s = (.ok b, s'') ↔ ∃ a s', x s = (.ok a, s') ∧ f a s' = (.ok b, s'') := by
  rcases h : x s with ⟨_ | a, s'⟩
  · rw [bind_of_error h]; simp
  · rw [bind_of_ok h]
    refine ⟨fun hb => ⟨a, s', rfl, hb⟩, ?_⟩
    rintro ⟨a', t, ht, hb⟩
    cases ht
    exact hb

theorem bind_eq_error_iff {x : Procedure σ ε α} {f : α → Procedure σ ε β} {s s'' : σ} {e : ε} :
    (x >>= f) s = (.error e, s'') ↔ x s = (.error e, s'') ∨
      ∃ a s', x s = (.ok a, s') ∧ f a s' = (.error e, s'') := by
  rcases h : x s with ⟨_ | a, s'⟩
  · rw [bind_of_error h]; simp
  · rw [bind_of_ok h]
    refine ⟨fun hb => .inr ⟨a, s', rfl, hb⟩, ?_⟩
    rintro (ht | ⟨a', t, ht, hb⟩)
    · cases ht
    · cases ht
      exact hb

/-- The computation keeps `inv`, whether it returns or fails. -/
def Keeps (inv : σ → Prop) (x : Procedure σ ε α) : Prop := ∀ s, inv s → inv (x s).2

section Keeps

variable {inv : σ → Prop} {x y : Procedure σ ε α} {f : α → Procedure σ ε β}

theorem keeps_pure (a : α) : Keeps inv (pure a : Procedure σ ε α) := fun _ hs => hs

theorem keeps_throw (e : ε) : Keeps inv (throw e : Procedure σ ε α) := fun _ hs => hs

theorem keeps_lift (r : Except ε α) : Keeps inv (lift r : Procedure σ ε α) := fun _ hs => hs

theorem keeps_modify {g : σ → σ} (h : ∀ s, inv s → inv (g s)) :
    Keeps inv (modify g : Procedure σ ε PUnit) := h

/-- Go on after a computation that has led to a good state. -/
theorem Keeps.after (hf : ∀ a, Keeps inv (f a)) {s : σ} (h : inv (x s).2) :
    inv ((x >>= f) s).2 := by
  rcases hrun : x s with ⟨e | a, s'⟩
  · rw [bind_of_error hrun]; rwa [hrun] at h
  · rw [bind_of_ok hrun]; rw [hrun] at h; exact hf a s' h

theorem Keeps.bind (hx : Keeps inv x) (hf : ∀ a, Keeps inv (f a)) : Keeps inv (x >>= f) :=
  fun s hs => Keeps.after hf (hx s hs)

/-- A computation that starts by reading the state may use what it has read. -/
theorem keeps_get_bind {f : σ → Procedure σ ε β} (h : ∀ s, inv s → inv (f s s).2) :
    Keeps inv (get >>= f) := h

theorem keeps_ite {c : Prop} [Decidable c] (hx : c → Keeps inv x) (hy : ¬ c → Keeps inv y) :
    Keeps inv (if c then x else y) := by
  by_cases h : c
  · rw [if_pos h]; exact hx h
  · rw [if_neg h]; exact hy h

end Keeps

/-- Whatever the computation returns satisfies `post`. -/
def Yields (post : α → Prop) (x : Procedure σ ε α) : Prop := ∀ s a, (x s).1 = .ok a → post a

section Yields

variable {post : α → Prop} {post' : β → Prop} {x y : Procedure σ ε α} {f : α → Procedure σ ε β}

theorem yields_pure {a : α} (h : post a) : Yields post (pure a : Procedure σ ε α) := by
  rintro s _ ⟨⟩
  exact h

theorem yields_throw (e : ε) : Yields post (throw e : Procedure σ ε α) := by rintro s _ ⟨⟩

theorem yields_bind (hf : ∀ a, Yields post' (f a)) : Yields post' (x >>= f) := by
  intro s b h
  rcases hrun : x s with ⟨e | a, s'⟩
  · rw [bind_of_error hrun] at h
    cases h
  · rw [bind_of_ok hrun] at h
    exact hf a s' b h

theorem yields_ite {c : Prop} [Decidable c] (hx : c → Yields post x) (hy : ¬ c → Yields post y) :
    Yields post (if c then x else y) := by
  split_ifs with h
  · exact hx h
  · exact hy h

end Yields

/-- The computation does not fail with this error, whatever the state. -/
def Avoids (e : ε) (x : Procedure σ ε α) : Prop := ∀ s, Failure.Avoids e (x s).1

section Avoids

variable {e e' : ε} {x y : Procedure σ ε α} {f : α → Procedure σ ε β}

theorem avoids_pure (a : α) : Avoids e (pure a : Procedure σ ε α) := fun _ => Failure.avoids_ok _

theorem avoids_throw (h : e' ≠ e) : Avoids e (throw e' : Procedure σ ε α) :=
  fun _ => Failure.avoids_throw h

theorem avoids_lift {r : Except ε α} (h : Failure.Avoids e r) :
    Avoids e (lift r : Procedure σ ε α) := fun _ => h

theorem avoids_modify (g : σ → σ) : Avoids e (modify g : Procedure σ ε PUnit) :=
  fun _ => Failure.avoids_ok _

theorem avoids_get : Avoids e (get : Procedure σ ε σ) := fun _ => Failure.avoids_ok _

theorem avoids_focus {part : σ → τ} {put : τ → σ → σ} {z : Procedure τ ε α} (h : Avoids e z) :
    Avoids e (focus part put z) := fun s => h (part s)

theorem Avoids.bind (hx : Avoids e x) (hf : ∀ a, Avoids e (f a)) : Avoids e (x >>= f) := by
  intro s
  rcases hrun : x s with ⟨e' | a, s'⟩
  · rw [bind_of_error hrun]
    have := hx s
    rw [hrun] at this
    rintro ⟨⟩
    exact this rfl
  · rw [bind_of_ok hrun]
    exact hf a s'

theorem avoids_ite {c : Prop} [Decidable c] (hx : c → Avoids e x) (hy : ¬ c → Avoids e y) :
    Avoids e (if c then x else y) := by
  split_ifs with h
  · exact hx h
  · exact hy h

end Avoids

end Procedure
