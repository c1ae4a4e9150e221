import Mathlib

/-!
# Linearizability of operations that run in sections

Clients share an object.  An operation runs in sections: a section is atomic, and it returns or
leaves the rest of the operation.  `System.next` lets clients invoke operations and advance them,
one section at a time and in any order.

A system is linearizable when its calls can be put into a sequence, which keeps the order of the
calls that did not overlap and in which each call runs without interruption to the same response
and all of them to the same state.  `linearizable_run` gives the sequence of the last sections, for
runs in which the sections that a call has behind it would go the same way again.
-/

namespace Linearizability

variable {ι σ ω ρ : Type}

/-- A section of an operation returns a response or leaves the rest of the operation. -/
abbrev Sections (σ ω ρ : Type) := ω → σ → (ρ ⊕ ω) × σ

/-- The operation, run without interruption. -/
inductive Runs (sections : Sections σ ω ρ) : ω → σ → ρ → σ → Prop
  | returns {operation : ω} {state state' : σ} {response : ρ}
    (h : sections operation state = (.inl response, state')) :
    Runs sections operation state response state'
  | goesOn {operation rest : ω} {state state' state'' : σ} {response : ρ}
    (h : sections operation state = (.inr rest, state'))
    (hrest : Runs sections rest state' response state'') :
    Runs sections operation state response state''

/-- A call that has returned, with the times of its invocation and of its last section. -/
structure Call (ι ω ρ : Type) where
  client : ι
  operation : ω
  invoked : ℕ
  response : ρ
  returned : ℕ
  deriving DecidableEq

/-- A call on its way: what is left of the operation, and what was left of it before each of its
sections so far, the latest first. -/
structure Pending (ω : Type) where
  operation : ω
  invoked : ℕ
  trail : List ω
  rest : ω

/-- An object with its clients. -/
structure System (ι σ ω ρ : Type) where
  state : σ
  time : ℕ
  pending : ι → Option (Pending ω)
  calls : List (Call ι ω ρ)

/-- A client invokes an operation, or runs the next section of its call. -/
inductive Event (ι ω : Type)
  | invoke (client : ι) (operation : ω)
  | advance (client : ι)

namespace System

/-- The object before any call. -/
def start (state : σ) : System ι σ ω ρ := ⟨state, 0, fun _ => none, []⟩

variable [DecidableEq ι]

/-- What becomes of the call of a client. -/
def setPending (system : System ι σ ω ρ) (client : ι) (call : Option (Pending ω)) :
    ι → Option (Pending ω) :=
  fun other => if other = client then call else system.pending other

/-- One event.  A client has one call at a time, and a call returns with its last section; if it
returned later, more calls would overlap. -/
def next (sections : Sections σ ω ρ) (system : System ι σ ω ρ) : Event ι ω → System ι σ ω ρ
  | .invoke client operation => match system.pending client with
    | some _ => system
    | none => { system with
        time := system.time + 1
        pending := system.setPending client (some ⟨operation, system.time, [], operation⟩) }
  | .advance client => match system.pending client with
    | none => system
    | some call => match sections call.rest system.state with
      | (.inl response, state) =>
        { state
          time := system.time + 1
          pending := system.setPending client none
          calls := system.calls ++
            [⟨client, call.operation, call.invoked, response, system.time⟩] }
      | (.inr rest, state) => { system with
        state
        time := system.time + 1
        pending := system.setPending client (some { call with
          trail := call.rest :: call.trail
          rest }) }

/-- A sequence of events. -/
def run (sections : Sections σ ω ρ) : System ι σ ω ρ → List (Event ι ω) → System ι σ ω ρ
  | system, [] => system
  | system, event :: events => run sections (system.next sections event) events

/-- Every event of a run meets a condition on the system that it finds. -/
def Along (sections : Sections σ ω ρ) (good : System ι σ ω ρ → Event ι ω → Prop) :
    System ι σ ω ρ → List (Event ι ω) → Prop
  | _, [] => True
  | system, event :: events =>
    good system event ∧ Along sections good (system.next sections event) events

theorem Along.mono {sections : Sections σ ω ρ} {good good' : System ι σ ω ρ → Event ι ω → Prop}
    {system : System ι σ ω ρ} {events : List (Event ι ω)}
    (h : Along sections good system events)
    (himp : ∀ system event, good system event → good' system event) :
    Along sections good' system events := by
  induction events generalizing system with
  | nil => trivial
  | cons event events ih => exact ⟨himp system event h.1, ih h.2⟩

end System

/-! ### Linearizations -/

/-- The calls, one after the other and each without interruption, have their responses and lead
from one state to the other. -/
def Sequential (sections : Sections σ ω ρ) : σ → List (Call ι ω ρ) → σ → Prop
  | state, [], state' => state = state'
  | state, call :: calls, state' => ∃ next, Runs sections call.operation state call.response next ∧
      Sequential sections next calls state'

/-- Some sequence of the calls keeps the order of those that did not overlap, and explains their
responses and the state. -/
def Linearizable (sections : Sections σ ω ρ) (initial : σ) (system : System ι σ ω ρ) : Prop :=
  ∃ order : List (Call ι ω ρ), order.Perm system.calls ∧
    order.Pairwise (fun a b => ¬ b.returned < a.invoked) ∧
    Sequential sections initial order system.state

variable {sections : Sections σ ω ρ}

theorem Sequential.append {state state' state'' : σ} {calls : List (Call ι ω ρ)}
    {call : Call ι ω ρ} (h : Sequential sections state calls state')
    (hcall : Runs sections call.operation state' call.response state'') :
    Sequential sections state (calls ++ [call]) state'' := by
  induction calls generalizing state with
  | nil =>
    cases h
    exact ⟨state'', hcall, rfl⟩
  | cons first calls ih =>
    obtain ⟨middle, hfirst, hrest⟩ := h
    exact ⟨middle, hfirst, ih hrest⟩

/-! ### Fresh calls -/

/-- The sections that the call has behind it would now go the same way again. -/
def Fresh (sections : Sections σ ω ρ) (state : σ) (call : Pending ω) : Prop :=
  (call.rest :: call.trail).IsChain
      (fun later earlier => sections earlier state = (.inr later, state)) ∧
    (call.rest :: call.trail).getLast? = some call.operation

theorem runs_of_isChain {state state' : σ} {response : ρ} {rest operation : ω} {trail : List ω}
    (h : Runs sections rest state response state')
    (hchain : (rest :: trail).IsChain
      fun later earlier => sections earlier state = (.inr later, state))
    (hlast : (rest :: trail).getLast? = some operation) :
    Runs sections operation state response state' := by
  induction trail generalizing rest with
  | nil =>
    cases hlast
    exact h
  | cons earlier trail ih =>
    obtain ⟨hstep, hrest⟩ := List.isChain_cons_cons.1 hchain
    refine ih (.goesOn hstep h) hrest ?_
    rwa [List.getLast?_cons_cons] at hlast

/-- A fresh call that runs the rest of its operation has run all of it. -/
theorem Fresh.runs {state state' : σ} {response : ρ} {call : Pending ω}
    (h : Fresh sections state call) (hrest : Runs sections call.rest state response state') :
    Runs sections call.operation state response state' :=
  runs_of_isChain hrest h.1 h.2

theorem fresh_invoked (state : σ) (operation : ω) (time : ℕ) :
    Fresh sections state ⟨operation, time, [], operation⟩ := ⟨.singleton _, rfl⟩

theorem Fresh.advance {state : σ} {call : Pending ω} {rest : ω} (h : Fresh sections state call)
    (hstep : sections call.rest state = (.inr rest, state)) :
    Fresh sections state { call with trail := call.rest :: call.trail, rest } :=
  ⟨.cons_cons hstep h.1, by rw [List.getLast?_cons_cons]; exact h.2⟩

/-! ### Runs -/

variable {initial : σ} {system : System ι σ ω ρ}

/-- The event leaves the calls of the other clients fresh. -/
def KeepsFresh [DecidableEq ι] (sections : Sections σ ω ρ) (system : System ι σ ω ρ) :
    Event ι ω → Prop
  | .invoke _ _ => True
  | .advance client => ∀ other call, other ≠ client → system.pending other = some call →
      Fresh sections system.state call →
      Fresh sections (system.next sections (.advance client)).state call

/-- The calls in the order of their last sections explain the state, and the calls on their way
are fresh. -/
structure Valid (sections : Sections σ ω ρ) (initial : σ) (system : System ι σ ω ρ) : Prop where
  sequential : Sequential sections initial system.calls system.state
  ordered : system.calls.Pairwise fun a b => a.returned < b.returned
  times : ∀ call ∈ system.calls, call.invoked ≤ call.returned ∧ call.returned < system.time
  pending : ∀ client call, system.pending client = some call →
    call.invoked < system.time ∧ Fresh sections system.state call

theorem valid_start (sections : Sections σ ω ρ) (initial : σ) :
    Valid sections initial (System.start initial : System ι σ ω ρ) where
  sequential := rfl
  ordered := .nil
  times := by rintro _ ⟨⟩
  pending := by rintro _ _ ⟨⟩

theorem Valid.linearizable (h : Valid sections initial system) :
    Linearizable sections initial system := by
  refine ⟨system.calls, .refl _, h.ordered.imp_of_mem fun {a b} ha _ hab => ?_, h.sequential⟩
  have := (h.times a ha).1
  omega

variable [DecidableEq ι]

theorem Valid.invoke (h : Valid sections initial system) (client : ι) (operation : ω) :
    Valid sections initial (system.next sections (.invoke client operation)) := by
  rw [System.next]
  cases hpending : system.pending client with
  | some call => exact h
  | none =>
    refine ⟨h.sequential, h.ordered, fun call hcall => ?_, fun other call hcall => ?_⟩
    · obtain ⟨hinvoked, hreturned⟩ := h.times call hcall
      exact ⟨hinvoked, Nat.lt_succ_of_lt hreturned⟩
    · simp only [System.setPending] at hcall
      split_ifs at hcall with heq
      · cases hcall
        exact ⟨Nat.lt_succ_self _, fresh_invoked _ _ _⟩
      · obtain ⟨hinvoked, hfresh⟩ := h.pending other call hcall
        exact ⟨Nat.lt_succ_of_lt hinvoked, hfresh⟩

/-- The last section of a call adds it to the sequence. -/
theorem Valid.returns (h : Valid sections initial system) {client : ι} {call : Pending ω}
    {response : ρ} {state : σ} (hpending : system.pending client = some call)
    (hstep : sections call.rest system.state = (.inl response, state))
    (hkeeps : ∀ other call, other ≠ client → system.pending other = some call →
      Fresh sections system.state call → Fresh sections state call) :
    Valid sections initial
      { state
        time := system.time + 1
        pending := system.setPending client none
        calls := system.calls ++
          [⟨client, call.operation, call.invoked, response, system.time⟩] } := by
  obtain ⟨hinvoked, hfresh⟩ := h.pending client call hpending
  refine ⟨h.sequential.append (hfresh.runs (.returns hstep)), ?_, ?_, fun other call hcall => ?_⟩
  · refine List.pairwise_append.2 ⟨h.ordered, List.pairwise_singleton _ _, ?_⟩
    rintro earlier hearlier _ hlast
    rw [List.mem_singleton.1 hlast]
    exact (h.times earlier hearlier).2
  · rw [List.forall_mem_append, List.forall_mem_singleton]
    refine ⟨fun earlier hearlier => ?_, hinvoked.le, Nat.lt_succ_self _⟩
    exact ⟨(h.times earlier hearlier).1, Nat.lt_succ_of_lt (h.times earlier hearlier).2⟩
  · simp only [System.setPending] at hcall
    split_ifs at hcall with heq
    obtain ⟨hinvoked', hfresh'⟩ := h.pending other call hcall
    exact ⟨Nat.lt_succ_of_lt hinvoked', hkeeps other call heq hcall hfresh'⟩

/-- Another section of a call only reads. -/
theorem Valid.goesOn (h : Valid sections initial system) {client : ι} {call : Pending ω} {rest : ω}
    (hpending : system.pending client = some call)
    (hstep : sections call.rest system.state = (.inr rest, system.state)) :
    Valid sections initial
      { system with
        time := system.time + 1
        pending := system.setPending client (some { call with
          trail := call.rest :: call.trail
          rest }) } := by
  obtain ⟨hinvoked, hfresh⟩ := h.pending client call hpending
  refine ⟨h.sequential, h.ordered, fun earlier hearlier => ?_, fun other call' hcall' => ?_⟩
  · exact ⟨(h.times earlier hearlier).1, Nat.lt_succ_of_lt (h.times earlier hearlier).2⟩
  · simp only [System.setPending] at hcall'
    split_ifs at hcall' with heq
    · cases hcall'
      exact ⟨Nat.lt_succ_of_lt hinvoked, hfresh.advance hstep⟩
    · obtain ⟨hinvoked', hfresh'⟩ := h.pending other call' hcall'
      exact ⟨Nat.lt_succ_of_lt hinvoked', hfresh'⟩

/-- One event, when the sections before the last one of an operation only read. -/
theorem Valid.next (h : Valid sections initial system)
    (hreads : ∀ operation state rest state', sections operation state = (.inr rest, state') →
      state' = state)
    {event : Event ι ω} (hkeeps : KeepsFresh sections system event) :
    Valid sections initial (system.next sections event) := by
  cases event with
  | invoke client operation => exact h.invoke client operation
  | advance client =>
    rw [KeepsFresh] at hkeeps
    rw [System.next] at hkeeps ⊢
    cases hpending : system.pending client with
    | none => exact h
    | some call =>
      simp only [hpending] at hkeeps ⊢
      rcases hstep : sections call.rest system.state with ⟨response | rest, state⟩
      · simp only [hstep] at hkeeps ⊢
        exact h.returns hpending hstep hkeeps
      · obtain rfl := hreads _ _ _ _ hstep
        exact h.goesOn hpending hstep

/-- **A run is linearizable**, in the order of the last sections, when the other sections of an
operation only read and every event leaves the calls on their way fresh. -/
theorem linearizable_run
    (hreads : ∀ operation state rest state', sections operation state = (.inr rest, state') →
      state' = state)
    {events : List (Event ι ω)}
    (hkeeps : System.Along sections (KeepsFresh sections) (System.start initial) events) :
    Linearizable sections initial (System.run sections (System.start initial) events) := by
  suffices hvalid : ∀ system, Valid sections initial system →
      System.Along sections (KeepsFresh sections) system events →
      Valid sections initial (System.run sections system events) from
    (hvalid _ (valid_start sections initial) hkeeps).linearizable
  clear hkeeps
  induction events with
  | nil => exact fun system h _ => h
  | cons event events ih => exact fun system h hkeeps => ih _ (h.next hreads hkeeps.1) hkeeps.2

end Linearizability
