import VertexDB.Persistence.LogFile

/-!
# The log is an append-only list

The log is used by appending, resetting and opening it anew.  As long as appends succeed, reading
gives the operations and payloads since the last reset, in order and numbered from 1, and
appending returns the number it has written (`readAll_logRun`).  The invariant is that the cached
number, if there is one, is the one after the last record in the file (`InStep`).
-/

namespace VertexDB

open Ascii

namespace WriteAheadLog

/-- The records of these operations and payloads, numbered from 1. -/
def numbered (pairs : List (WalOperation × Str)) : List WalRecord :=
  pairs.mapIdx fun i pair => ⟨i + 1, pair.1, pair.2⟩

variable {pairs : List (WalOperation × Str)} {storage storage' : Storage}

theorem numbered_append (pairs : List (WalOperation × Str)) (pair : WalOperation × Str) :
    numbered (pairs ++ [pair]) = numbered pairs ++ [⟨pairs.length + 1, pair.1, pair.2⟩] := by
  simp [numbered, List.mapIdx_append]

theorem lsnAfter_append (records : List WalRecord) (record : WalRecord) :
    lsnAfter (records ++ [record]) = max (lsnAfter records) ((record.lsn + 1) % 2 ^ 64) := by
  rw [lsnAfter, List.foldl_append]
  rfl

/-- The number after the last one. -/
theorem lsnAfter_numbered (h : pairs.length < 2 ^ 64 - 1) :
    lsnAfter (numbered pairs) = pairs.length + 1 := by
  induction pairs using List.reverseRecOn with
  | nil => rfl
  | append_singleton pairs pair ih =>
    rw [List.length_append, List.length_singleton] at h ⊢
    rw [numbered_append, lsnAfter_append, ih (by omega), Nat.mod_eq_of_lt (by simp only; omega)]
    exact max_eq_right (by simp only; omega)

/-- The file holds these operations and payloads, numbered from 1, and the cached number is the
next one. -/
structure InStep (storage : Storage) (pairs : List (WalOperation × Str)) : Prop where
  holds : Holds storage (numbered pairs)
  cached : ∀ lsn, storage.nextLsn = some lsn → lsn = pairs.length + 1

/-- Whether it is cached or read off the file, the next number is the same. -/
theorem InStep.nextLsn_eq (h : InStep storage pairs) (hlen : pairs.length + 1 < 2 ^ 64 - 1) :
    nextLsn storage =
      (.ok (pairs.length + 1), { storage with nextLsn := some (pairs.length + 2) }) := by
  have hmod : (pairs.length + 1 + 1) % 2 ^ 64 = pairs.length + 2 := Nat.mod_eq_of_lt (by omega)
  cases hn : storage.nextLsn with
  | some lsn =>
    obtain rfl := h.cached lsn hn
    rw [nextLsn, Procedure.get_bind, hn]
    simp only [Procedure.modify_bind, hmod]
    rfl
  | none =>
    rw [nextLsn, Procedure.get_bind, hn]
    simp only [h.holds.readAll_eq, lsnAfter_numbered (show pairs.length < 2 ^ 64 - 1 by omega),
      Procedure.lift_ok_bind, Procedure.modify_bind, hmod]
    rfl

theorem InStep.append (h : InStep storage pairs) (hlen : pairs.length + 1 < 2 ^ 64 - 1)
    {operation : WalOperation} {payload : Str} {lsn : ℕ}
    (hok : append operation payload storage = (.ok lsn, storage')) :
    lsn = pairs.length + 1 ∧ InStep storage' (pairs ++ [(operation, payload)]) := by
  have hcreated : InStep { storage with disk := storage.disk.createDirectories } pairs :=
    ⟨⟨h.holds.contents, h.holds.fits, h.holds.next, h.holds.faults⟩, h.cached⟩
  have happ := h.holds.append_eq (hcreated.nextLsn_eq hlen) operation payload
  rw [hok] at happ
  split_ifs at happ with hsize
  · cases happ
  · cases happ
    refine ⟨rfl, ?_, ?_⟩
    · rw [numbered_append]
      exact h.holds.written (by simp only; omega) (by omega) hsize
    · rintro _ ⟨⟩
      simp

/-- Runs of a log: after `count` appends, all of which have succeeded, these are the operations
and payloads since the last reset. -/
inductive LogRun (start : Storage) : ℕ → List (WalOperation × Str) → Storage → Prop
  | start : LogRun start 0 [] start
  | append {count : ℕ} {pairs : List (WalOperation × Str)} {storage storage' : Storage}
    (h : LogRun start count pairs storage) {operation : WalOperation} {payload : Str} {lsn : ℕ}
    (hok : append operation payload storage = (.ok lsn, storage')) :
    LogRun start (count + 1) (pairs ++ [(operation, payload)]) storage'
  | reset {count : ℕ} {pairs : List (WalOperation × Str)} {storage storage' : Storage}
    (h : LogRun start count pairs storage) (hok : reset storage = (.ok (), storage')) :
    LogRun start count [] storage'
  | reopen {count : ℕ} {pairs : List (WalOperation × Str)} {storage : Storage}
    (h : LogRun start count pairs storage) : LogRun start count pairs ⟨storage.disk, none, []⟩

/-- The log file is missing or empty, nothing is cached, and no append to come fails. -/
def Unused (storage : Storage) : Prop :=
  (storage.disk.read path).getD [] = [] ∧ storage.nextLsn = none ∧ storage.faults = []

theorem LogRun.inStep {start : Storage} {count : ℕ} (h : LogRun start count pairs storage)
    (hstart : Unused start) (hcount : count < 2 ^ 64 - 1) :
    pairs.length ≤ count ∧ InStep storage pairs := by
  induction h with
  | start =>
    refine ⟨le_rfl, ⟨?_, by simp [numbered], ?_, hstart.2.2⟩, ?_⟩
    · rw [hstart.1]
      rfl
    · intro lsn hlsn
      rw [hstart.2.1] at hlsn
      cases hlsn
    · intro lsn hlsn
      rw [hstart.2.1] at hlsn
      cases hlsn
  | append _ hok ih =>
    obtain ⟨hlen, hstep⟩ := ih (by omega)
    refine ⟨?_, (hstep.append (by omega) hok).2⟩
    rw [List.length_append, List.length_singleton]
    omega
  | reset _ hok ih =>
    obtain ⟨-, hstep⟩ := ih hcount
    rw [reset_eq] at hok
    cases hok
    refine ⟨Nat.zero_le _, holds_reset _ hstep.holds.faults, ?_⟩
    rintro _ ⟨⟩
    rfl
  | reopen _ ih =>
    obtain ⟨hlen, hstep⟩ := ih hcount
    refine ⟨hlen, hstep.holds.restart, ?_⟩
    rintro _ ⟨⟩

/-- **The log is an append-only list**: reading gives what has been appended since the last reset,
in order and with the sequence numbers from 1 on, and an append returns the number of the record
that it adds. -/
theorem readAll_logRun {start : Storage} {count : ℕ} (h : LogRun start count pairs storage)
    (hstart : Unused start) (hcount : count < 2 ^ 64 - 1) :
    readAll storage.disk = .ok (numbered pairs) ∧
      ∀ operation payload lsn storage', count + 1 < 2 ^ 64 - 1 →
        append operation payload storage = (.ok lsn, storage') →
        readAll storage'.disk = .ok (numbered pairs ++ [⟨lsn, operation, payload⟩]) := by
  obtain ⟨hlen, hstep⟩ := h.inStep hstart hcount
  refine ⟨hstep.holds.readAll_eq, fun operation payload lsn storage' hnext hok => ?_⟩
  obtain ⟨rfl, hstep'⟩ := hstep.append (by omega) hok
  rw [hstep'.holds.readAll_eq, numbered_append]

/-- One record, a reset, two records and a reopening. -/
theorem readAll_logRun_reopened :
    ∃ storage, LogRun ⟨.empty, none, []⟩ 3 [(.insert, [1, 2]), (.update, [])] storage ∧
      readAll storage.disk = .ok [⟨1, .insert, [1, 2]⟩, ⟨2, .update, []⟩] := by
  have hfirst : (append .createDatabase (bytes "d") ⟨.empty, none, []⟩).1 = .ok 1 := by decide
  have hrun := LogRun.start.append (Procedure.eq_of_fst_eq hfirst)
  have hreset := hrun.reset (reset_eq _)
  have hsecond : (append .insert [1, 2] (reset (append .createDatabase (bytes "d")
      ⟨.empty, none, []⟩).2).2).1 = .ok 1 := by decide
  have hthird : (append .update [] (append .insert [1, 2] (reset (append .createDatabase (bytes "d")
      ⟨.empty, none, []⟩).2).2).2).1 = .ok 2 := by decide
  have hall := ((hreset.append (Procedure.eq_of_fst_eq hsecond)).append
    (Procedure.eq_of_fst_eq hthird)).reopen
  exact ⟨_, hall, (readAll_logRun hall ⟨rfl, rfl, rfl⟩ (by norm_num)).1⟩

end WriteAheadLog

end VertexDB
