import Mathlib

/-!
# Maps kept as strictly increasing association lists

`SortedMap κ α` is a finite map whose bindings are listed in strictly increasing order of their
keys, the order being part of the structure.  It models an ordered map whose iteration order is
the order of the keys, and also any map that is only ever looked up.

* All the updates are instances of one operation, `SortedMap.alter`, and one lemma,
  `SortedMap.find?_alter`, says what each of them does to every key;
* `SortedMap.ext_find?` : two maps that answer every lookup alike are equal, iteration order
  included, so that facts about iteration can be proved by lookups;
* `SortedMap.mem_entries_iff` relates iteration and lookup.
-/

/-- A finite map listed in strictly increasing order of its keys. -/
structure SortedMap (κ : Type*) (α : Type*) [LinearOrder κ] where
  /-- The bindings. -/
  entries : List (κ × α)
  /-- The keys increase strictly. -/
  sorted : entries.Pairwise fun a b => a.1 < b.1

namespace SortedMap

variable {κ α β : Type*} [LinearOrder κ]

@[ext] theorem ext {m m' : SortedMap κ α} (h : m.entries = m'.entries) : m = m' := by
  cases m; cases m'; cases h; rfl

instance [DecidableEq α] : DecidableEq (SortedMap κ α) := fun m m' =>
  decidable_of_iff (m.entries = m'.entries) ⟨ext, fun h => h ▸ rfl⟩

/-- The map without bindings. -/
def empty : SortedMap κ α := ⟨[], .nil⟩

instance : Inhabited (SortedMap κ α) := ⟨empty⟩

/-- Lookup in a list of bindings. -/
def lookup (k : κ) : List (κ × α) → Option α
  | [] => none
  | (k', v) :: rest => if k = k' then some v else lookup k rest

/-- Lookup. -/
def find? (m : SortedMap κ α) (k : κ) : Option α := lookup k m.entries

/-- `k` is bound. -/
def contains (m : SortedMap κ α) (k : κ) : Bool := (m.find? k).isSome

/-- The keys, in increasing order. -/
def keys (m : SortedMap κ α) : List κ := m.entries.map Prod.fst

/-- The values, in increasing order of their keys. -/
def values (m : SortedMap κ α) : List α := m.entries.map Prod.snd

/-- Number of bindings. -/
def size (m : SortedMap κ α) : ℕ := m.entries.length

/-- Change the binding of `k` in a sorted list of bindings: `f` maps the present binding (if
any) to the new one (if any). -/
def alterList (k : κ) (f : Option α → Option α) : List (κ × α) → List (κ × α)
  | [] => ((f none).map (k, ·)).toList
  | (k', v) :: rest =>
    if k < k' then ((f none).map (k, ·)).toList ++ (k', v) :: rest
    else if k = k' then ((f (some v)).map (k, ·)).toList ++ rest
    else (k', v) :: alterList k f rest

theorem key_mem_of_mem_alterList {k : κ} {f : Option α → Option α} {l : List (κ × α)}
    {b : κ × α} (h : b ∈ alterList k f l) : b.1 = k ∨ b ∈ l := by
  induction l with
  | nil =>
    simp only [alterList, Option.mem_toList, Option.map_eq_some_iff] at h
    obtain ⟨v, -, rfl⟩ := h
    exact .inl rfl
  | cons c rest ih =>
    obtain ⟨k', v⟩ := c
    simp only [alterList] at h
    split_ifs at h with h1 h2
    · rcases List.mem_append.1 h with h | h
      · simp only [Option.mem_toList, Option.map_eq_some_iff] at h
        obtain ⟨w, -, rfl⟩ := h
        exact .inl rfl
      · exact .inr h
    · rcases List.mem_append.1 h with h | h
      · simp only [Option.mem_toList, Option.map_eq_some_iff] at h
        obtain ⟨w, -, rfl⟩ := h
        exact .inl rfl
      · exact .inr (List.mem_cons_of_mem _ h)
    · rcases List.mem_cons.1 h with rfl | h
      · exact .inr List.mem_cons_self
      · exact (ih h).imp id (List.mem_cons_of_mem _)

theorem sorted_alterList {k : κ} {f : Option α → Option α} {l : List (κ × α)}
    (h : l.Pairwise fun a b => a.1 < b.1) : (alterList k f l).Pairwise fun a b => a.1 < b.1 := by
  induction l with
  | nil => cases hf : f none <;> simp [alterList, hf]
  | cons c rest ih =>
    obtain ⟨k', v⟩ := c
    obtain ⟨hhead, htail⟩ := List.pairwise_cons.1 h
    simp only [alterList]
    split_ifs with h1 h2
    · cases hf : f none with
      | none => simpa using h
      | some w =>
        refine List.pairwise_cons.2 ⟨fun b hb => ?_, h⟩
        rcases List.mem_cons.1 hb with rfl | hb
        · exact h1
        · exact h1.trans (hhead b hb)
    · subst h2
      cases hf : f (some v) with
      | none => simpa using htail
      | some w => exact List.pairwise_cons.2 ⟨hhead, htail⟩
    · refine List.pairwise_cons.2 ⟨fun b hb => ?_, ih htail⟩
      rcases key_mem_of_mem_alterList hb with hb | hb
      · rw [hb]; exact lt_of_le_of_ne (not_lt.1 h1) (Ne.symm h2)
      · exact hhead b hb

/-- Change the binding of one key. -/
def alter (m : SortedMap κ α) (k : κ) (f : Option α → Option α) : SortedMap κ α :=
  ⟨alterList k f m.entries, sorted_alterList m.sorted⟩

/-- Bind `k` to `v`, replacing an earlier binding. -/
def insert (m : SortedMap κ α) (k : κ) (v : α) : SortedMap κ α := m.alter k fun _ => some v

/-- Bind `k` to `v` unless it is bound already. -/
def tryEmplace (m : SortedMap κ α) (k : κ) (v : α) : SortedMap κ α :=
  m.alter k fun old => some (old.getD v)

/-- Apply `f` to the value of `k`, or to `d` when `k` is not bound. -/
def upsert (m : SortedMap κ α) (k : κ) (d : α) (f : α → α) : SortedMap κ α :=
  m.alter k fun old => some (f (old.getD d))

/-- Apply `f` to the value of `k`, if it is bound. -/
def adjust (m : SortedMap κ α) (k : κ) (f : α → α) : SortedMap κ α := m.alter k (Option.map f)

/-- Remove the binding of `k`. -/
def erase (m : SortedMap κ α) (k : κ) : SortedMap κ α := m.alter k fun _ => none

/-- Apply `f` to every value. -/
def mapValues (m : SortedMap κ α) (f : κ → α → β) : SortedMap κ β :=
  ⟨m.entries.map fun b => (b.1, f b.1 b.2), by
    rw [List.pairwise_map]; exact m.sorted⟩

/-! ### Lookup after an update -/

theorem lookup_eq_none {k : κ} {l : List (κ × α)} (h : ∀ b ∈ l, k < b.1) : lookup k l = none := by
  induction l with
  | nil => rfl
  | cons b rest ih =>
    obtain ⟨k', v⟩ := b
    have hne : k ≠ k' := (h (k', v) List.mem_cons_self).ne
    simp only [lookup, hne, ↓reduceIte]
    exact ih fun b hb => h b (List.mem_cons_of_mem _ hb)

theorem lookup_alterList {k j : κ} {f : Option α → Option α} {l : List (κ × α)}
    (h : l.Pairwise fun a b => a.1 < b.1) :
    lookup j (alterList k f l) = if j = k then f (lookup k l) else lookup j l := by
  induction l with
  | nil =>
    by_cases hj : j = k
    · subst hj; cases hf : f none <;> simp [alterList, lookup, hf]
    · cases hf : f none <;> simp [alterList, lookup, hf, hj]
  | cons c rest ih =>
    obtain ⟨k', v⟩ := c
    obtain ⟨hhead, htail⟩ := List.pairwise_cons.1 h
    simp only [alterList]
    rcases lt_trichotomy k k' with h1 | rfl | h1
    · -- the keys are sorted, so a smaller key is not there
      have hn : lookup k ((k', v) :: rest) = none := by
        refine lookup_eq_none fun b hb => ?_
        rcases List.mem_cons.1 hb with rfl | hb
        · exact h1
        · exact h1.trans (hhead b hb)
      rw [if_pos h1, hn]
      by_cases hj : j = k
      · subst hj
        cases hf : f none with
        | none => simp [hn]
        | some w => simp [lookup]
      · cases hf : f none with
        | none => simp [hj]
        | some w => simp [lookup, hj]
    · rw [if_neg (lt_irrefl _), if_pos rfl]
      by_cases hj : j = k
      · subst hj
        have hn : lookup j rest = none := lookup_eq_none hhead
        cases hf : f (some v) with
        | none => simp [lookup, hn, hf]
        | some w => simp [lookup, hf]
      · cases hf : f (some v) with
        | none => simp [lookup, hj]
        | some w => simp [lookup, hj]
    · rw [if_neg h1.asymm, if_neg h1.ne']
      simp only [lookup, ih htail, h1.ne', ↓reduceIte]
      by_cases hj : j = k
      · subst hj; simp [h1.ne']
      · simp [hj]

@[simp] theorem find?_empty (k : κ) : (empty : SortedMap κ α).find? k = none := rfl

theorem find?_alter (m : SortedMap κ α) (k j : κ) (f : Option α → Option α) :
    (m.alter k f).find? j = if j = k then f (m.find? k) else m.find? j :=
  lookup_alterList m.sorted

@[simp] theorem find?_insert (m : SortedMap κ α) (k j : κ) (v : α) :
    (m.insert k v).find? j = if j = k then some v else m.find? j := find?_alter ..

@[simp] theorem find?_tryEmplace (m : SortedMap κ α) (k j : κ) (v : α) :
    (m.tryEmplace k v).find? j = if j = k then some ((m.find? k).getD v) else m.find? j :=
  find?_alter ..

@[simp] theorem find?_upsert (m : SortedMap κ α) (k j : κ) (d : α) (f : α → α) :
    (m.upsert k d f).find? j = if j = k then some (f ((m.find? k).getD d)) else m.find? j :=
  find?_alter ..

@[simp] theorem find?_adjust (m : SortedMap κ α) (k j : κ) (f : α → α) :
    (m.adjust k f).find? j = if j = k then (m.find? k).map f else m.find? j := find?_alter ..

@[simp] theorem find?_erase (m : SortedMap κ α) (k j : κ) :
    (m.erase k).find? j = if j = k then none else m.find? j := find?_alter ..

@[simp] theorem find?_mapValues (m : SortedMap κ α) (f : κ → α → β) (k : κ) :
    (m.mapValues f).find? k = (m.find? k).map (f k) := by
  obtain ⟨l, hl⟩ := m
  simp only [find?, mapValues]
  clear hl
  induction l with
  | nil => rfl
  | cons b rest ih =>
    obtain ⟨k', v⟩ := b
    simp only [List.map_cons, lookup]
    split_ifs with h
    · subst h; rfl
    · exact ih

theorem contains_iff {m : SortedMap κ α} {k : κ} : m.contains k = true ↔ ∃ v, m.find? k = some v :=
  Option.isSome_iff_exists

/-! ### Lookup and iteration -/

theorem lookup_eq_some_iff {l : List (κ × α)} (h : l.Pairwise fun a b => a.1 < b.1) {k : κ}
    {v : α} : lookup k l = some v ↔ (k, v) ∈ l := by
  induction l with
  | nil => simp [lookup]
  | cons b rest ih =>
    obtain ⟨k', v'⟩ := b
    obtain ⟨hhead, htail⟩ := List.pairwise_cons.1 h
    simp only [lookup, List.mem_cons, Prod.mk.injEq]
    split_ifs with hk
    · subst hk
      constructor
      · rintro hv; cases hv; exact .inl ⟨rfl, rfl⟩
      · rintro (⟨-, rfl⟩ | hmem)
        · rfl
        · exact absurd (hhead _ hmem) (lt_irrefl _)
    · simp [hk, ih htail]

theorem mem_entries_iff {m : SortedMap κ α} {k : κ} {v : α} :
    (k, v) ∈ m.entries ↔ m.find? k = some v := (lookup_eq_some_iff m.sorted).symm

theorem mem_keys_iff {m : SortedMap κ α} {k : κ} : k ∈ m.keys ↔ ∃ v, m.find? k = some v := by
  simp only [keys, List.mem_map, Prod.exists, exists_and_right, exists_eq_right, mem_entries_iff]

theorem sorted_keys (m : SortedMap κ α) : m.keys.Pairwise (· < ·) :=
  List.pairwise_map.2 m.sorted

/-- Two sorted lists with the same elements are equal. -/
theorem eq_of_sorted_of_mem_iff {l l' : List (κ × α)} (h : l.Pairwise fun a b => a.1 < b.1)
    (h' : l'.Pairwise fun a b => a.1 < b.1) (hmem : ∀ b, b ∈ l ↔ b ∈ l') : l = l' := by
  induction l generalizing l' with
  | nil =>
    cases l' with
    | nil => rfl
    | cons b _ => exact absurd ((hmem b).2 List.mem_cons_self) List.not_mem_nil
  | cons a l ih =>
    cases l' with
    | nil => exact absurd ((hmem a).1 List.mem_cons_self) List.not_mem_nil
    | cons b l' =>
      obtain ⟨ha, hl⟩ := List.pairwise_cons.1 h
      obtain ⟨hb, hl'⟩ := List.pairwise_cons.1 h'
      have hab : a = b := by
        rcases List.mem_cons.1 ((hmem a).1 List.mem_cons_self) with hab | hab
        · exact hab
        rcases List.mem_cons.1 ((hmem b).2 List.mem_cons_self) with hba | hba
        · exact hba.symm
        · exact absurd ((hb a hab).trans (ha b hba)) (lt_irrefl _)
      subst hab
      rw [ih hl hl' fun c => ?_]
      have hc := hmem c
      simp only [List.mem_cons] at hc
      constructor
      · intro hcl
        rcases hc.1 (.inr hcl) with rfl | h
        · exact absurd (ha c hcl) (lt_irrefl _)
        · exact h
      · intro hcl
        rcases hc.2 (.inr hcl) with rfl | h
        · exact absurd (hb c hcl) (lt_irrefl _)
        · exact h

/-- **Maps are determined by their lookups.** -/
theorem ext_find? {m m' : SortedMap κ α} (h : ∀ k, m.find? k = m'.find? k) : m = m' := by
  refine ext (eq_of_sorted_of_mem_iff m.sorted m'.sorted fun b => ?_)
  obtain ⟨k, v⟩ := b
  rw [mem_entries_iff, mem_entries_iff, h]

/-- Binding the entries of a map one after the other, to whatever is not bound yet. -/
theorem find?_foldl_insert (l : List (κ × α)) (hl : l.Pairwise fun a b => a.1 ≠ b.1)
    (m : SortedMap κ α) {k : κ} {v : α} :
    (l.foldl (fun m b => m.insert b.1 b.2) m).find? k = some v ↔
      (k, v) ∈ l ∨ (∀ b ∈ l, b.1 ≠ k) ∧ m.find? k = some v := by
  induction l generalizing m with
  | nil => simp
  | cons b l ih =>
    obtain ⟨k', v'⟩ := b
    obtain ⟨hb, htail⟩ := List.pairwise_cons.1 hl
    rw [List.foldl_cons, ih htail, find?_insert]
    by_cases hk : k = k'
    · subst hk
      rw [if_pos rfl, Option.some.injEq, List.mem_cons, Prod.mk.injEq]
      constructor
      · rintro (h | ⟨-, rfl⟩)
        · exact .inl (.inr h)
        · exact .inl (.inl ⟨rfl, rfl⟩)
      · rintro ((⟨-, rfl⟩ | h) | ⟨h, -⟩)
        · exact .inr ⟨fun b hbl => Ne.symm (hb b hbl), rfl⟩
        · exact .inl h
        · exact absurd rfl (h _ List.mem_cons_self)
    · have hk' : k' ≠ k := Ne.symm hk
      simp [hk, hk']

/-- A map is rebuilt by binding its entries one after the other. -/
theorem foldl_insert_entries (m : SortedMap κ α) :
    m.entries.foldl (fun m b => m.insert b.1 b.2) empty = m := by
  refine ext_find? fun k => Option.ext fun v => ?_
  rw [find?_foldl_insert _ (m.sorted.imp fun h => h.ne)]
  simp [mem_entries_iff]

/-- Binding a key to the value that it has changes nothing. -/
theorem insert_self {m : SortedMap κ α} {k : κ} {v : α} (h : m.find? k = some v) :
    m.insert k v = m := by
  refine ext_find? fun j => ?_
  rw [find?_insert]
  split_ifs with hj
  · rw [hj, h]
  · rfl

theorem mapValues_insert (m : SortedMap κ α) (f : κ → α → β) (k : κ) (v : α) :
    (m.insert k v).mapValues f = (m.mapValues f).insert k (f k v) := by
  refine ext_find? fun j => ?_
  simp only [find?_mapValues, find?_insert]
  split_ifs with h
  · subst h; rfl
  · rfl

theorem mapValues_erase (m : SortedMap κ α) (f : κ → α → β) (k : κ) :
    (m.erase k).mapValues f = (m.mapValues f).erase k := by
  refine ext_find? fun j => ?_
  simp only [find?_mapValues, find?_erase]
  split_ifs <;> rfl

@[simp] theorem contains_mapValues (m : SortedMap κ α) (f : κ → α → β) (k : κ) :
    (m.mapValues f).contains k = m.contains k := by
  simp [contains]

theorem tryEmplace_of_find?_eq_none {m : SortedMap κ α} {k : κ} (h : m.find? k = none) (v : α) :
    m.tryEmplace k v = m.insert k v :=
  ext_find? fun j => by simp [h]

theorem tryEmplace_of_contains {m : SortedMap κ α} {k : κ} (h : m.contains k = true) (v : α) :
    m.tryEmplace k v = m := by
  obtain ⟨w, hw⟩ := contains_iff.1 h
  refine ext_find? fun j => ?_
  rw [find?_tryEmplace, hw]
  split_ifs with hj
  · rw [hj, hw]; rfl
  · rfl

theorem contains_eq_false_iff {m : SortedMap κ α} {k : κ} :
    m.contains k = false ↔ m.find? k = none := by simp [contains]

@[simp] theorem keys_mapValues (m : SortedMap κ α) (f : κ → α → β) :
    (m.mapValues f).keys = m.keys := by
  simp [keys, mapValues, Function.comp_def]

end SortedMap
