import Mathlib.Data.List.Sort
import VertexDB.Lib.SortedMap

/-!
# Ordered multimaps

An ordered multimap is described by what was done to it: `live updates` are the bindings that were
inserted and neither removed nor cleared since, in insertion order.  `valuesAt` reads the values of
a key and `select` those of a range of keys, in key order.  A sorted map of lists of values `Holds`
the multimap when it maps each key that has values to them; every update keeps this
(`Holds.insert`, `Holds.remove`), and reading the entries of the map selects the values
(`Holds.flatMap_filter`).
-/

namespace VertexDB

namespace OrderedMultimap

/-- An update of a multimap; `remove` takes away all bindings of the key to the value. -/
inductive Update (κ α : Type*)
  | insert (key : κ) (value : α)
  | remove (key : κ) (value : α)
  | clear
  deriving DecidableEq

variable {κ κ' α : Type*}

/-- The update of another key. -/
def Update.mapKey (f : κ → κ') : Update κ α → Update κ' α
  | insert key value => insert (f key) value
  | remove key value => remove (f key) value
  | clear => clear

/-- A later update takes the binding away. -/
def Gone (binding : κ × α) (later : List (Update κ α)) : Prop :=
  .remove binding.1 binding.2 ∈ later ∨ .clear ∈ later

instance [DecidableEq κ] [DecidableEq α] (binding : κ × α) (later : List (Update κ α)) :
    Decidable (Gone binding later) := inferInstanceAs (Decidable (_ ∨ _))

/-- The bindings that were inserted and are not gone, in insertion order. -/
def live [DecidableEq κ] [DecidableEq α] : List (Update κ α) → List (κ × α)
  | [] => []
  | .insert key value :: later =>
    if Gone (key, value) later then live later else (key, value) :: live later
  | .remove _ _ :: later => live later
  | .clear :: later => live later

/-- Filtering by disjoint predicates is filtering by either. -/
theorem filter_append_filter_perm {β : Type*} (p q : β → Bool)
    (hpq : ∀ b, p b = true → q b = false) (bindings : List β) :
    (bindings.filter p ++ bindings.filter q).Perm (bindings.filter fun b => p b || q b) := by
  have hsplit := List.filter_append_perm p (bindings.filter fun b => p b || q b)
  rw [List.filter_filter, List.filter_filter] at hsplit
  have hp : bindings.filter (fun b => p b && (p b || q b)) = bindings.filter p :=
    List.filter_congr fun b _ => by cases p b <;> rfl
  have hq : bindings.filter (fun b => !p b && (p b || q b)) = bindings.filter q := by
    refine List.filter_congr fun b _ => ?_
    cases hb : p b with
    | true => rw [hpq b hb]; rfl
    | false => simp
  rwa [hp, hq] at hsplit

section Selections

variable [LinearOrder κ]

/-- The values of a key, in insertion order. -/
def valuesAt (bindings : List (κ × α)) (key : κ) : List α :=
  (bindings.filter fun binding => binding.1 = key).map Prod.snd

/-- The keys that have a value, in increasing order. -/
def keys (bindings : List (κ × α)) : List κ :=
  (bindings.map Prod.fst).dedup.insertionSort (· ≤ ·)

/-- The values of the keys that satisfy `p`, by key and then in insertion order. -/
def select (bindings : List (κ × α)) (p : κ → Bool) : List α :=
  ((keys bindings).filter p).flatMap (valuesAt bindings)

variable {bindings : List (κ × α)}

theorem mem_keys_iff {key : κ} : key ∈ keys bindings ↔ valuesAt bindings key ≠ [] := by
  rw [keys, List.mem_insertionSort, List.mem_dedup, valuesAt, ne_eq, List.map_eq_nil_iff,
    List.filter_eq_nil_iff, List.mem_map]
  simp

theorem nodup_keys (bindings : List (κ × α)) : (keys bindings).Nodup :=
  (List.perm_insertionSort (· ≤ ·) _).nodup_iff.2 (List.nodup_dedup _)

theorem pairwise_keys (bindings : List (κ × α)) : (keys bindings).Pairwise (· < ·) := by
  have hle := List.pairwise_insertionSort (r := (· ≤ ·)) (bindings.map Prod.fst).dedup
  exact (hle.and (nodup_keys bindings)).imp fun h => lt_of_le_of_ne h.1 h.2

/-- Picking the bindings key by key is picking those of the keys. -/
theorem flatMap_filter_perm {ks : List κ} (hks : ks.Nodup) (bindings : List (κ × α)) :
    (ks.flatMap fun key => bindings.filter fun b => b.1 = key).Perm
      (bindings.filter fun b => b.1 ∈ ks) := by
  induction ks with
  | nil => simp
  | cons key ks ih =>
    obtain ⟨hkey, hks⟩ := List.nodup_cons.1 hks
    have hdisjoint : ∀ b : κ × α, decide (b.1 = key) = true → decide (b.1 ∈ ks) = false := by
      intro b hb
      rw [of_decide_eq_true hb]
      exact decide_eq_false hkey
    refine (((ih hks).append_left _).trans (filter_append_filter_perm _ _ hdisjoint _)).trans ?_
    refine .of_eq (List.filter_congr fun b _ => ?_)
    simp [List.mem_cons]

/-- No value is missing from a selection and none is repeated. -/
theorem select_perm (bindings : List (κ × α)) (p : κ → Bool) :
    (select bindings p).Perm ((bindings.filter fun b => p b.1).map Prod.snd) := by
  have hperm := flatMap_filter_perm ((nodup_keys bindings).filter p) bindings
  have hmem : bindings.filter (fun b => b.1 ∈ (keys bindings).filter p) =
      bindings.filter fun b => p b.1 := by
    refine List.filter_congr fun b hb => ?_
    have hkey : b.1 ∈ keys bindings :=
      (List.mem_insertionSort _).2 (List.mem_dedup.2 (List.mem_map_of_mem hb))
    rw [Bool.eq_iff_iff, decide_eq_true_iff, List.mem_filter]
    exact and_iff_right hkey
  rw [hmem] at hperm
  have hmap := hperm.map Prod.snd
  rwa [List.map_flatMap] at hmap

end Selections

/-! ### The bindings after an update -/

section Updates

variable [DecidableEq κ] [DecidableEq α]

theorem live_concat_insert (updates : List (Update κ α)) (key : κ) (value : α) :
    live (updates ++ [.insert key value]) = live updates ++ [(key, value)] := by
  induction updates with
  | nil => simp [live, Gone]
  | cons update updates ih =>
    cases update with
    | insert key' value' =>
      have hgone : Gone (key', value') (updates ++ [.insert key value]) ↔
          Gone (key', value') updates := by simp [Gone]
      simp only [List.cons_append, live, hgone, ih]
      split_ifs
      · rfl
      · rfl
    | remove key' value' => exact ih
    | clear => exact ih

theorem live_concat_remove (updates : List (Update κ α)) (key : κ) (value : α) :
    live (updates ++ [.remove key value]) = (live updates).filter (· ≠ (key, value)) := by
  induction updates with
  | nil => simp [live]
  | cons update updates ih =>
    cases update with
    | insert key' value' =>
      have hgone : Gone (key', value') (updates ++ [.remove key value]) ↔
          (key', value') = (key, value) ∨ Gone (key', value') updates := by
        simp only [Gone, List.mem_append, List.mem_singleton, Update.remove.injEq, Prod.mk.injEq,
          reduceCtorEq, or_false]
        tauto
      simp only [List.cons_append, live, hgone, ih]
      by_cases heq : (key', value') = (key, value)
      · rw [if_pos (.inl heq)]
        split_ifs
        · rfl
        · rw [List.filter_cons_of_neg (by simpa using heq)]
      · by_cases hold : Gone (key', value') updates
        · rw [if_pos (.inr hold), if_pos hold]
        · rw [if_neg (not_or.2 ⟨heq, hold⟩), if_neg hold,
            List.filter_cons_of_pos (by simpa [Decidable.imp_iff_not_or] using heq)]
    | remove key' value' => exact ih
    | clear => exact ih

theorem live_concat_clear (updates : List (Update κ α)) : live (updates ++ [.clear]) = [] := by
  induction updates with
  | nil => rfl
  | cons update updates ih =>
    cases update with
    | insert key value =>
      rw [List.cons_append, live, if_pos (.inr (List.mem_append_right _ (.head _)))]
      exact ih
    | remove key value => exact ih
    | clear => exact ih

end Updates

/-! ### Maps of lists -/

variable [LinearOrder κ]

/-- `m` maps each key with values to its values, and has no other entries. -/
def Holds (m : SortedMap κ (List α)) (bindings : List (κ × α)) : Prop :=
  ∀ key, m.find? key = if valuesAt bindings key = [] then none else some (valuesAt bindings key)

theorem valuesAt_filter_ne [DecidableEq α] (bindings : List (κ × α)) (key key' : κ) (value : α) :
    valuesAt (bindings.filter (· ≠ (key, value))) key' =
      if key' = key then (valuesAt bindings key).filter (· != value)
      else valuesAt bindings key' := by
  rw [valuesAt, List.filter_filter]
  split_ifs with heq
  · subst heq
    rw [valuesAt, List.filter_map, List.filter_filter]
    refine congrArg (List.map _) (List.filter_congr fun b _ => ?_)
    by_cases hkey : b.1 = key'
    · simp [Prod.ext_iff, hkey, bne, BEq.beq]
    · simp [hkey]
  · refine congrArg (List.map _) (List.filter_congr fun b _ => ?_)
    by_cases hkey : b.1 = key'
    · simp [Prod.ext_iff, hkey, heq]
    · simp [hkey]

theorem holds_empty : Holds (.empty : SortedMap κ (List α)) [] := fun _ => rfl

namespace Holds

variable {m : SortedMap κ (List α)} {bindings : List (κ × α)}

theorem getD_find? (h : Holds m bindings) (key : κ) :
    (m.find? key).getD [] = valuesAt bindings key := by
  rw [h key]
  split_ifs with hnil
  · exact hnil.symm
  · rfl

theorem entries_eq (h : Holds m bindings) :
    m.entries = (keys bindings).map fun key => (key, valuesAt bindings key) := by
  have hsorted : ((keys bindings).map fun key => (key, valuesAt bindings key)).Pairwise
      fun a b => a.1 < b.1 := List.pairwise_map.2 (pairwise_keys bindings)
  refine SortedMap.eq_of_sorted_of_mem_iff m.sorted hsorted fun ⟨key, values⟩ => ?_
  rw [SortedMap.mem_entries_iff, h key, List.mem_map]
  constructor
  · intro hfind
    split_ifs at hfind with hnil
    exact ⟨key, mem_keys_iff.2 hnil, by rw [Option.some_inj.1 hfind]⟩
  · rintro ⟨key', hkey, heq⟩
    obtain ⟨rfl, rfl⟩ := Prod.mk.inj heq
    exact if_neg (mem_keys_iff.1 hkey)

theorem size_eq (h : Holds m bindings) : m.size = (bindings.map Prod.fst).dedup.length := by
  rw [SortedMap.size, h.entries_eq, List.length_map, keys, List.length_insertionSort]

theorem flatMap_filter (h : Holds m bindings) (p : κ → Bool) :
    (m.entries.filter fun e => p e.1).flatMap Prod.snd = select bindings p := by
  rw [h.entries_eq, List.filter_map, List.flatMap_map]
  rfl

theorem insert (h : Holds m bindings) (key : κ) (value : α) :
    Holds (m.upsert key [] (· ++ [value])) (bindings ++ [(key, value)]) := by
  intro key'
  have hvalues : valuesAt (bindings ++ [(key, value)]) key' =
      valuesAt bindings key' ++ if key = key' then [value] else [] := by
    rw [valuesAt, List.filter_append, List.map_append]
    by_cases heq : key = key'
    · simp [valuesAt, heq]
    · simp [valuesAt, heq]
  rw [SortedMap.find?_upsert, hvalues]
  by_cases heq : key' = key
  · rw [if_pos heq, if_pos heq.symm, h.getD_find?, heq]
    exact (if_neg (by simp)).symm
  · rw [if_neg heq, if_neg (Ne.symm heq), List.append_nil]
    exact h key'

theorem remove_of_none [DecidableEq α] (h : Holds m bindings) {key : κ}
    (hfind : m.find? key = none) (value : α) :
    Holds m (bindings.filter (· ≠ (key, value))) := by
  intro key'
  have hnil : valuesAt bindings key = [] := by rw [← h.getD_find?, hfind]; rfl
  rw [valuesAt_filter_ne]
  split_ifs with heq hleft hleft
  · rw [heq, hfind]
  · rw [hnil] at hleft
    exact absurd rfl hleft
  · rw [h key', if_pos hleft]
  · rw [h key', if_neg hleft]

theorem remove_of_some [DecidableEq α] (h : Holds m bindings) {key : κ} {values : List α}
    (hfind : m.find? key = some values) (value : α) :
    Holds (if values.filter (· != value) = [] then m.erase key
        else m.insert key (values.filter (· != value)))
      (bindings.filter (· ≠ (key, value))) := by
  intro key'
  have hvalues : valuesAt bindings key = values := by rw [← h.getD_find?, hfind]; rfl
  rw [valuesAt_filter_ne, hvalues]
  by_cases hleft : values.filter (· != value) = []
  · rw [if_pos hleft, SortedMap.find?_erase]
    split_ifs with heq hnil
    · rfl
    · rw [h key', if_pos hnil]
    · rw [h key', if_neg hnil]
  · rw [if_neg hleft, SortedMap.find?_insert]
    split_ifs with heq hnil
    · rfl
    · rw [h key', if_pos hnil]
    · rw [h key', if_neg hnil]

end Holds

end OrderedMultimap

end VertexDB
