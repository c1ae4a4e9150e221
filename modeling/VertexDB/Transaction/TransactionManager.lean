import VertexDB.Transaction.MvccRowStore

/-!
# The transaction manager
-/

namespace VertexDB

/-- `TransactionState`. -/
inductive TransactionState
  | active
  | committed
  | rolledBack
  deriving DecidableEq

/-- `TransactionManager`: the next identifier and the states of those handed out. -/
structure TransactionManager where
  nextId : TransactionId
  transactions : SortedMap TransactionId TransactionState
  deriving DecidableEq

namespace TransactionManager

/-- A new manager. -/
def new : TransactionManager := ⟨1, .empty⟩

/-- `TransactionManager::begin`; `emplace` keeps an entry that exists. -/
def begin (manager : TransactionManager) : TransactionId × TransactionManager :=
  (manager.nextId,
    ⟨manager.nextId + 1, manager.transactions.tryEmplace manager.nextId .active⟩)

/-- End a transaction in the given state. -/
def finish (manager : TransactionManager) (id : TransactionId) (state : TransactionState)
    (message : String) : Except Exception TransactionManager :=
  if manager.transactions.find? id = some .active then
    return { manager with transactions := manager.transactions.insert id state }
  else throw (.runtimeError message)

/-- `TransactionManager::commit`. -/
def commit (manager : TransactionManager) (id : TransactionId) :
    Except Exception TransactionManager :=
  manager.finish id .committed "cannot commit inactive transaction"

/-- `TransactionManager::rollback`. -/
def rollback (manager : TransactionManager) (id : TransactionId) :
    Except Exception TransactionManager :=
  manager.finish id .rolledBack "cannot roll back inactive transaction"

/-- `TransactionManager::find`. -/
def find (manager : TransactionManager) (id : TransactionId) : Option TransactionState :=
  manager.transactions.find? id

/-! ### Identifiers -/

variable {manager manager' : TransactionManager} {id : TransactionId}

/-- `begin` has been called `count` times: the identifiers handed out are those from 1 to
`count`, and the next one follows, all modulo `2 ^ 64`. -/
def Counted (manager : TransactionManager) (count : ℕ) : Prop :=
  manager.nextId = Fin.ofNat (2 ^ 64) (count + 1) ∧
    ∀ id, manager.find id ≠ none ↔ ∃ k, 1 ≤ k ∧ k ≤ count ∧ id = Fin.ofNat (2 ^ 64) k

theorem counted_new : new.Counted 0 := by
  refine ⟨rfl, fun id => ?_⟩
  constructor
  · intro h
    exact absurd rfl h
  · rintro ⟨k, hk, hk', -⟩
    omega

theorem find_begin (manager : TransactionManager) (id : TransactionId) :
    manager.begin.2.find id =
      if id = manager.nextId then some ((manager.find manager.nextId).getD .active)
      else manager.find id :=
  SortedMap.find?_tryEmplace ..

/-- A fresh identifier is that of an active transaction. -/
theorem find_begun (h : manager.find manager.nextId = none) :
    manager.begin.2.find manager.begin.1 = some .active := by
  rw [find_begin, if_pos (show manager.begin.1 = manager.nextId from rfl), h]
  rfl

theorem Counted.begin {count : ℕ} (h : manager.Counted count) :
    manager.begin.2.Counted (count + 1) := by
  constructor
  · change manager.nextId + 1 = _
    rw [h.1]
    apply Fin.ext
    simp [Fin.val_add]
  · intro id
    rw [find_begin]
    constructor
    · intro hid
      split_ifs at hid with heq
      · exact ⟨count + 1, by omega, le_rfl, heq.trans h.1⟩
      · obtain ⟨k, hk, hk', rfl⟩ := (h.2 id).1 hid
        exact ⟨k, hk, by omega, rfl⟩
    · rintro ⟨k, hk, hk', rfl⟩
      split_ifs with heq
      · simp
      · refine (h.2 _).2 ⟨k, hk, ?_, rfl⟩
        have hne : k ≠ count + 1 := by
          rintro rfl
          exact heq h.1.symm
        omega

/-- While some identifier has not been handed out, the next one has not. -/
theorem Counted.fresh {count : ℕ} (h : manager.Counted count)
    (hroom : ∃ id, manager.find id = none) :
    manager.find manager.nextId = none := by
  obtain ⟨unused, hunused⟩ := hroom
  have hlt : count < 2 ^ 64 := by
    by_contra hcount
    refine (h.2 unused).2 ?_ hunused
    by_cases hzero : unused.val = 0
    · exact ⟨2 ^ 64, by norm_num, not_lt.1 hcount, Fin.ext (by simpa using hzero)⟩
    · refine ⟨unused.val, Nat.one_le_iff_ne_zero.2 hzero, by have := unused.isLt; omega, ?_⟩
      exact Fin.ext (Nat.mod_eq_of_lt unused.isLt).symm
  by_contra hfound
  obtain ⟨k, hk, hk', heq⟩ := (h.2 _).1 hfound
  rw [h.1] at heq
  have hmod : (count + 1) % 2 ^ 64 = k % 2 ^ 64 := congrArg Fin.val heq
  omega

/-- An ended transaction was active, and nothing else changes. -/
theorem finish_ok {state : TransactionState} {message : String}
    (h : manager.finish id state message = .ok manager') :
    manager.find id = some .active ∧ manager'.nextId = manager.nextId ∧
      ∀ id', manager'.find id' = if id' = id then some state else manager.find id' := by
  rw [finish] at h
  split_ifs at h with hactive
  cases h
  exact ⟨hactive, rfl, fun id' => SortedMap.find?_insert ..⟩

theorem Counted.finish {count : ℕ} (hc : manager.Counted count) {state : TransactionState}
    {message : String} (h : manager.finish id state message = .ok manager') :
    manager'.Counted count := by
  obtain ⟨hactive, hnext, hfind⟩ := finish_ok h
  refine ⟨hnext.trans hc.1, fun id' => ?_⟩
  rw [← hc.2 id', hfind]
  split_ifs with heq
  · subst heq
    simp [hactive]
  · rfl

end TransactionManager

end VertexDB
