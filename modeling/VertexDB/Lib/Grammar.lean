import VertexDB.Lib.Failure
import VertexDB.Lib.Reading

/-!
# Grammars and the readers that accept them

A `Grammar` relates phrases to what they stand for.  Grammars are built by `one`, `bind`, `oneOf`
and `separated`; nothing in them says in which order alternatives are tried or where a phrase stops.

`Accepts stop r g` says that the reader `r` reads phrases of `g` only, and reads every one of them
as far as `stop` holds of what follows.  A reader that decides by the next symbol accepts the union
of its alternatives when no phrase of the later ones can start with the symbol of the first one,
the symbols that may follow an empty phrase included (`Leads`).
-/

/-- Phrases, with what they stand for. -/
def Grammar (σ α : Type) : Type := List σ → α → Prop

namespace Grammar

open Reading Failure

variable {σ ε α β : Type}

/-- The empty phrase and one phrase after another. -/
instance : Monad (Grammar σ) where
  pure x := fun phrase y => phrase = [] ∧ y = x
  bind g f := fun phrase y => ∃ x left right, phrase = left ++ right ∧ g left x ∧ f x right y

/-- A single symbol. -/
def one (p : σ → α → Prop) : Grammar σ α := fun phrase x => ∃ s, phrase = [s] ∧ p s x

/-- A value that no symbol stands for. -/
def suchThat (p : α → Prop) : Grammar σ α := fun phrase x => phrase = [] ∧ p x

/-- A phrase of any of the grammars. -/
def oneOf (gs : List (Grammar σ α)) : Grammar σ α := fun phrase x => ∃ g ∈ gs, g phrase x

/-- One or more phrases with a symbol between them. -/
inductive Separated (comma : σ → Prop) (item : Grammar σ α) : List σ → List α → Prop
  | last {phrase : List σ} {x : α} (h : item phrase x) : Separated comma item phrase [x]
  | cons {phrase more : List σ} {x : α} {xs : List α} {s : σ} (h : item phrase x) (hs : comma s)
    (hmore : Separated comma item more xs) : Separated comma item (phrase ++ s :: more) (x :: xs)

/-- `Separated` as a grammar. -/
def separated (comma : σ → Prop) (item : Grammar σ α) : Grammar σ (List α) := Separated comma item

variable {g : Grammar σ α} {f : α → Grammar σ β} {gs : List (Grammar σ α)} {phrase : List σ}
  {x : α} {p : σ → Prop}

theorem bind_iff {y : β} : (g >>= f) phrase y ↔
    ∃ x left right, phrase = left ++ right ∧ g left x ∧ f x right y := Iff.rfl

theorem one_bind_iff {p : σ → α → Prop} {y : β} : (one p >>= f) phrase y ↔
    ∃ s x right, phrase = s :: right ∧ p s x ∧ f x right y := by
  rw [bind_iff]
  constructor
  · rintro ⟨x, _, right, rfl, ⟨s, rfl, hs⟩, hf⟩
    exact ⟨s, x, right, rfl, hs, hf⟩
  · rintro ⟨s, x, right, rfl, hs, hf⟩
    exact ⟨x, [s], right, rfl, ⟨s, rfl, hs⟩, hf⟩

theorem oneOf_cons_iff : oneOf (g :: gs) phrase x ↔ g phrase x ∨ oneOf gs phrase x := by
  simp only [oneOf, List.mem_cons, exists_eq_or_imp]

theorem oneOf_singleton_iff : oneOf [g] phrase x ↔ g phrase x := by
  simp only [oneOf, List.mem_singleton, exists_eq_left]

/-! ### What a text starts with -/

/-- The text starts with such a symbol. -/
def Next (p : σ → Prop) (text : List σ) : Prop := ∃ s rest, text = s :: rest ∧ p s

theorem Next.mono {p' : σ → Prop} {text : List σ} (h : Next p text) (hp : ∀ s, p s → p' s) :
    Next p' text := by
  obtain ⟨s, rest, rfl, hs⟩ := h
  exact ⟨s, rest, rfl, hp s hs⟩

/-- A phrase in front of a symbol of `follow` starts with a symbol of `first`. -/
def Leads (g : Grammar σ α) (follow first : σ → Prop) : Prop :=
  ∀ phrase x rest, g phrase x → Next follow rest → Next first (phrase ++ rest)

variable {follow first : σ → Prop}

theorem leads_pure (h : ∀ s, follow s → first s) : Leads (pure x : Grammar σ α) follow first := by
  rintro _ _ rest ⟨rfl, rfl⟩ hrest
  exact hrest.mono h

theorem leads_one_bind {p : σ → α → Prop} (h : ∀ s x, p s x → first s) :
    Leads (one p >>= f) follow first := by
  intro phrase y rest hy _
  obtain ⟨s, x, right, rfl, hs, -⟩ := one_bind_iff.1 hy
  exact ⟨s, right ++ rest, rfl, h s x hs⟩

theorem leads_oneOf_nil : Leads (oneOf [] : Grammar σ α) follow first := by
  rintro _ _ _ ⟨_, ⟨⟩, _⟩

theorem leads_oneOf_cons (h : Leads g follow first) (hs : Leads (oneOf gs) follow first) :
    Leads (oneOf (g :: gs)) follow first := by
  intro phrase x rest hx hrest
  rcases oneOf_cons_iff.1 hx with hx | hx
  · exact h phrase x rest hx hrest
  · exact hs phrase x rest hx hrest

theorem Leads.bind {middle : σ → Prop} (h : Leads g middle first)
    (hf : ∀ x, Leads (f x) follow middle) : Leads (g >>= f) follow first := by
  rintro _ y rest ⟨x, left, right, rfl, hx, hy⟩ hrest
  rw [List.append_assoc]
  exact h left x (right ++ rest) hx (hf x right y rest hy hrest)

theorem Leads.mono {first' : σ → Prop} (h : Leads g follow first) (hp : ∀ s, first s → first' s) :
    Leads g follow first' :=
  fun phrase x rest hx hrest => (h phrase x rest hx hrest).mono hp

/-! ### Readers -/

/-- The reader reads phrases of the grammar only, and every one in front of what `stop` allows. -/
structure Accepts (stop : List σ → Prop) (r : StateT (List σ) (Except ε) α) (g : Grammar σ α) :
    Prop where
  derives : ∀ text x rest, r text = .ok (x, rest) → ∃ phrase, text = phrase ++ rest ∧ g phrase x
  reads : ∀ phrase x, g phrase x → ReadsBefore stop r x phrase

variable {stop stop' : List σ → Prop} {r r' : StateT (List σ) (Except ε) α}
  {k : α → StateT (List σ) (Except ε) β}

theorem Accepts.mono (h : Accepts stop r g) (hs : ∀ rest, stop' rest → stop rest) :
    Accepts stop' r g :=
  ⟨h.derives, fun phrase x hx => (h.reads phrase x hx).mono hs⟩

theorem accepts_pure (x : α) : Accepts stop (pure x : StateT (List σ) (Except ε) α) (pure x) where
  derives := by
    rintro text _ _ ⟨⟩
    exact ⟨[], rfl, rfl, rfl⟩
  reads := by
    rintro _ _ ⟨rfl, rfl⟩
    exact (reads_pure _).before

theorem accepts_lift {result : Except ε α} :
    Accepts stop (liftM result : StateT (List σ) (Except ε) α) (suchThat (result = .ok ·)) where
  derives := by
    rintro text x rest h
    cases result with
    | error e => cases h
    | ok y => cases h; exact ⟨[], rfl, rfl, rfl⟩
  reads := by
    rintro _ x ⟨rfl, hx⟩
    rw [hx]
    exact (reads_pure x).before

theorem accepts_throw (e : ε) :
    Accepts stop (throw e : StateT (List σ) (Except ε) α) (oneOf []) where
  derives := by rintro _ _ _ ⟨⟩
  reads := by rintro _ _ ⟨_, ⟨⟩, _⟩

/-- One reader after another; what the second one reads lets the first one stop. -/
theorem Accepts.bind (h : Accepts stop r g) (hk : ∀ x, Accepts stop' (k x) (f x))
    (hs : ∀ x phrase y rest, f x phrase y → stop' rest → stop (phrase ++ rest)) :
    Accepts stop' (r >>= k) (g >>= f) where
  derives := by
    intro text y rest hy
    obtain ⟨x, middle, hx, hnext⟩ := bind_apply_eq_ok_iff.1 hy
    obtain ⟨left, rfl, hleft⟩ := h.derives text x middle hx
    obtain ⟨right, rfl, hright⟩ := (hk x).derives middle y rest hnext
    exact ⟨left ++ right, (List.append_assoc _ _ _).symm, x, left, right, rfl, hleft, hright⟩
  reads := by
    rintro _ y ⟨x, left, right, rfl, hleft, hright⟩
    exact (h.reads left x hleft).bind ((hk x).reads right y hright) fun rest =>
      hs x right y rest hright

/-- A reader that stops by itself. -/
theorem Accepts.before (h : Accepts (fun _ => True) r g) (hk : ∀ x, Accepts stop (k x) (f x)) :
    Accepts stop (r >>= k) (g >>= f) :=
  h.bind hk fun _ _ _ _ _ _ => trivial

/-- A last step that reads nothing. -/
theorem Accepts.map {k : α → β} (h : Accepts stop r g) :
    Accepts stop (r >>= fun x => pure (k x)) (g >>= fun x => pure (k x)) := by
  refine h.bind (fun x => accepts_pure (k x)) ?_
  rintro _ _ _ rest ⟨rfl, -⟩ hrest
  exact hrest

/-! ### Deciding by the next symbol -/

/-- The test takes the next symbol if it is in the set, and takes nothing if it is not. -/
structure Tests (first : σ → Prop) (test : StateT (List σ) (Except ε) Bool) : Prop where
  taken : ∀ s rest, first s → test (s :: rest) = .ok (true, rest)
  left : ∀ s rest, ¬ first s → test (s :: rest) = .ok (false, s :: rest)
  fails : ∀ result, test [] ≠ .ok result

variable {test : StateT (List σ) (Except ε) Bool}

/-- What a test returns. -/
theorem Tests.ok (h : Tests first test) {text rest : List σ} {found : Bool}
    (hok : test text = .ok (found, rest)) :
    (∃ s, found = true ∧ text = s :: rest ∧ first s) ∨
      found = false ∧ rest = text ∧ Next (fun s => ¬ first s) text := by
  match text with
  | [] => exact absurd hok (h.fails _)
  | s :: tail =>
    by_cases hs : first s
    · rw [h.taken s tail hs] at hok
      cases hok
      exact .inl ⟨s, rfl, rfl, hs⟩
    · rw [h.left s tail hs] at hok
      cases hok
      exact .inr ⟨rfl, rfl, s, tail, rfl, hs⟩

/-- A test decides for the first of the alternatives or the others. -/
theorem Accepts.choice (ht : Tests first test) (h : Accepts stop r g)
    (h' : Accepts stop r' (oneOf gs))
    (hnext : ∀ phrase x rest, oneOf gs phrase x → stop rest →
      Next (fun s => ¬ first s) (phrase ++ rest)) :
    Accepts stop (test >>= fun found => if found = true then r else r')
      (oneOf ((one (fun s (_ : Unit) => first s) >>= fun _ => g) :: gs)) where
  derives := by
    intro text x rest hx
    obtain ⟨found, middle, hfound, hbranch⟩ := bind_apply_eq_ok_iff.1 hx
    rcases ht.ok hfound with ⟨s, rfl, rfl, hs⟩ | ⟨rfl, rfl, -⟩
    · obtain ⟨phrase, rfl, hphrase⟩ := h.derives middle x rest hbranch
      exact ⟨s :: phrase, rfl, oneOf_cons_iff.2 (.inl (one_bind_iff.2 ⟨s, (), phrase, rfl, hs,
        hphrase⟩))⟩
    · obtain ⟨phrase, rfl, hphrase⟩ := h'.derives middle x rest hbranch
      exact ⟨phrase, rfl, oneOf_cons_iff.2 (.inr hphrase)⟩
  reads := by
    intro phrase x hx rest hrest
    rcases oneOf_cons_iff.1 hx with hx | hx
    · obtain ⟨s, -, right, rfl, hs, hright⟩ := one_bind_iff.1 hx
      exact (bind_apply_of_eq (ht.taken s (right ++ rest) hs)).trans
        (h.reads right x hright rest hrest)
    · obtain ⟨s, tail, htext, hs⟩ := hnext phrase x rest hx hrest
      have hleft : test (phrase ++ rest) = .ok (false, phrase ++ rest) := by
        rw [htext]
        exact ht.left s tail hs
      exact (bind_apply_of_eq hleft).trans (h'.reads phrase x hx rest hrest)

/-- The only alternative. -/
theorem Accepts.oneOf_singleton (h : Accepts stop r g) : Accepts stop r (oneOf [g]) where
  derives := by
    intro text x rest hx
    obtain ⟨phrase, htext, hphrase⟩ := h.derives text x rest hx
    exact ⟨phrase, htext, oneOf_singleton_iff.2 hphrase⟩
  reads := fun phrase x hx => h.reads phrase x (oneOf_singleton_iff.1 hx)

/-- A symbol that has to be there. -/
theorem accepts_one_of_tests (ht : Tests first test) (e : ε) :
    Accepts (fun _ => True) (test >>= fun found => if found = true then pure () else throw e)
      (one fun s (_ : Unit) => first s) where
  derives := by
    intro text x rest hx
    obtain ⟨found, middle, hfound, hbranch⟩ := bind_apply_eq_ok_iff.1 hx
    rcases ht.ok hfound with ⟨s, rfl, rfl, hs⟩ | ⟨rfl, -, -⟩
    · cases hbranch
      exact ⟨[s], rfl, s, rfl, hs⟩
    · cases hbranch
  reads := by
    rintro _ _ ⟨s, rfl, hs⟩ rest -
    exact bind_apply_of_eq (ht.taken s rest hs)

/-! ### Sequences -/

/-- There are at most as many items as separators and one more. -/
theorem Separated.length_le {comma : σ → Prop} {xs : List α}
    (h : Separated comma g phrase xs) : xs.length ≤ phrase.length + 1 := by
  induction h with
  | last h => simp
  | cons h hs hmore ih =>
    simp only [List.length_cons, List.length_append]
    omega

/-- Two meanings of one phrase that a reader reads are the same. -/
theorem Accepts.unique (h : Accepts stop r g) {y : α} (hx : g phrase x) (hy : g phrase y)
    {rest : List σ} (hrest : stop rest) : x = y := by
  have hread := h.reads phrase x hx rest hrest
  rw [h.reads phrase y hy rest hrest] at hread
  cases hread
  rfl

end Grammar
