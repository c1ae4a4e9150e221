import Mathlib.Data.List.Basic

/-!
# Finite-state transducers

A transducer reads letters one at a time; a letter moves it to another state and makes it emit
symbols, or stops it with an error.  `run` is the state that a word leads to, with what is emitted
on the way, and `output` the emission of a whole word, with what the last state emits at its end.
A word that leads to a state can be cut off (`output_append`).
-/

namespace Transducer

variable {σ α β : Type} (step : σ → α → Option (σ × List β)) (finish : σ → Option (List β))

/-- The state after a word and the symbols emitted on the way. -/
def run : σ → List α → Option (σ × List β)
  | s, [] => some (s, [])
  | s, a :: as => (step s a).bind fun p => (run p.1 as).map fun q => (q.1, p.2 ++ q.2)

/-- The symbols emitted for a whole word. -/
def output : σ → List α → Option (List β)
  | s, [] => finish s
  | s, a :: as => (step s a).bind fun p => (output p.1 as).map (p.2 ++ ·)

variable {step finish} {s t : σ} {a : α} {as bs : List α} {out more : List β}

theorem output_cons (h : step s a = some (t, out)) (as : List α) :
    output step finish s (a :: as) = (output step finish t as).map (out ++ ·) := by
  rw [output, h, Option.bind_some]

theorem output_cons_silent (h : step s a = some (t, [])) (as : List α) :
    output step finish s (a :: as) = output step finish t as :=
  (output_cons h as).trans Option.map_id'

theorem output_cons_of_none (h : step s a = none) (as : List α) :
    output step finish s (a :: as) = none := by
  rw [output, h, Option.bind_none]

theorem run_cons (h : step s a = some (t, out)) (as : List α) :
    run step s (a :: as) = (run step t as).map fun q => (q.1, out ++ q.2) := by
  rw [run, h, Option.bind_some]

theorem run_singleton (h : step s a = some (t, out)) : run step s [a] = some (t, out) := by
  rw [run_cons h, run, Option.map_some, List.append_nil]

theorem run_append {u : σ} (h : run step s as = some (t, out))
    (h' : run step t bs = some (u, more)) :
    run step s (as ++ bs) = some (u, out ++ more) := by
  induction as generalizing s out with
  | nil =>
    cases h
    exact h'
  | cons a as ih =>
    rw [run, Option.bind_eq_some_iff] at h
    obtain ⟨⟨mid, first⟩, hstep, hrun⟩ := h
    rw [Option.map_eq_some_iff] at hrun
    obtain ⟨⟨last, rest⟩, hrun, heq⟩ := hrun
    cases heq
    rw [List.cons_append, run_cons hstep, ih hrun, Option.map_some, List.append_assoc]

/-- The output of a word that goes on after a run. -/
theorem output_append (h : run step s as = some (t, out)) (bs : List α) :
    output step finish s (as ++ bs) = (output step finish t bs).map (out ++ ·) := by
  induction as generalizing s out with
  | nil =>
    cases h
    exact Option.map_id'.symm
  | cons a as ih =>
    rw [run, Option.bind_eq_some_iff] at h
    obtain ⟨⟨mid, first⟩, hstep, hrun⟩ := h
    rw [Option.map_eq_some_iff] at hrun
    obtain ⟨⟨last, rest⟩, hrun, heq⟩ := hrun
    cases heq
    rw [List.cons_append, output_cons hstep, ih hrun, Option.map_map]
    congr 1
    funext later
    exact (List.append_assoc first rest later).symm

/-- A word with an output leads to a state at each point. -/
theorem run_of_output (h : output step finish s (as ++ bs) = some out) :
    ∃ t first rest, run step s as = some (t, first) ∧ output step finish t bs = some rest := by
  induction as generalizing s out with
  | nil => exact ⟨s, [], out, rfl, h⟩
  | cons a as ih =>
    rw [List.cons_append, output, Option.bind_eq_some_iff] at h
    obtain ⟨⟨mid, first⟩, hstep, hout⟩ := h
    rw [Option.map_eq_some_iff] at hout
    obtain ⟨rest, hout, -⟩ := hout
    obtain ⟨t, emitted, last, hrun, hlast⟩ := ih hout
    exact ⟨t, first ++ emitted, last, by rw [run_cons hstep, hrun, Option.map_some], hlast⟩

end Transducer
