import VertexDB.Lib.Failure
import VertexDB.Lib.Linearizability

/-!
# A shared lock makes sections atomic

Clients work on an object in small steps (`Program`), and between two steps of one client others may
run.  A client takes the lock before the steps of a section and lets it go after them: exclusively,
or together with others whose sections only read.

`simulates_run` shows that nothing of the steps can be seen: the calls have the responses of the
system in which every section is atomic, when the sections run in the order in which the lock is let
go, and when no client holds the lock exclusively the object is the same.  `exists_advance` shows
that every client with a call can go on.
-/

namespace SharedLock

open Linearizability

variable {ι σ ω ρ ε α β : Type}

/-- Work that is done step by step.  The next step depends on what the object was before. -/
inductive Program (σ α : Type)
  | done (result : α)
  | step (effect : σ → σ) (next : σ → Program σ α)

namespace Program

/-- The steps without interruption. -/
def run : Program σ α → σ → α × σ
  | done result, state => (result, state)
  | step effect next, state => run (next state) (effect state)

/-- The steps leave the object alone. -/
def OnlyReads : Program σ α → Prop
  | done _ => True
  | step effect next => effect = id ∧ ∀ state, OnlyReads (next state)

/-- A program that goes on with another one. -/
def bind : Program σ α → (α → Program σ β) → Program σ β
  | done result, rest => rest result
  | step effect next, rest => step effect fun state => bind (next state) rest

theorem run_bind (program : Program σ α) (rest : α → Program σ β) (state : σ) :
    (program.bind rest).run state = (rest (program.run state).1).run (program.run state).2 := by
  induction program generalizing state with
  | done result => rfl
  | step effect next ih => exact ih state (effect state)

/-- A step that looks at the object. -/
def read (next : σ → Program σ α) : Program σ α := step id next

/-- A procedure as one step. -/
def atom (procedure : Procedure σ ε α) : Program σ (Except ε α) :=
  step (fun state => (procedure state).2) fun state => done (procedure state).1

/-- A program that goes on with another one, unless it fails. -/
def andThen (program : Program σ (Except ε α)) (rest : α → Program σ (Except ε β)) :
    Program σ (Except ε β) :=
  program.bind fun
    | .ok a => rest a
    | .error e => done (.error e)

/-- The program does in steps what the procedure does. -/
def Does (program : Program σ (Except ε α)) (procedure : Procedure σ ε α) : Prop :=
  ∀ state, program.run state = procedure state

theorem does_done (result : Except ε α) : Does (done result : Program σ _) (.lift result) :=
  fun _ => rfl

theorem does_atom (procedure : Procedure σ ε α) : (atom procedure).Does procedure := fun _ => rfl

theorem does_read {next : σ → Program σ (Except ε α)} {rest : σ → Procedure σ ε α}
    (h : ∀ state, (next state).Does (rest state)) : (read next).Does (get >>= rest) :=
  fun state => h state state

theorem Does.andThen {program : Program σ (Except ε α)} {procedure : Procedure σ ε α}
    {next : α → Program σ (Except ε β)} {rest : α → Procedure σ ε β} (h : program.Does procedure)
    (hrest : ∀ a, (next a).Does (rest a)) : (program.andThen next).Does (procedure >>= rest) := by
  intro state
  rw [Program.andThen, run_bind, h state]
  rcases hrun : procedure state with ⟨e | a, state'⟩
  · exact (Procedure.bind_of_error hrun).symm
  · exact (hrest a state').trans (Procedure.bind_of_ok hrun).symm

theorem does_ite {condition : Prop} [Decidable condition]
    {program program' : Program σ (Except ε α)}
    {procedure procedure' : Procedure σ ε α} (h : program.Does procedure)
    (h' : program'.Does procedure') : (if condition then program else program').Does
      (if condition then procedure else procedure') := by
  split_ifs
  · exact h
  · exact h'

end Program

/-! ### The lock -/

/-- Who holds the lock: one client exclusively, or any number of clients together. -/
structure Lock (ι : Type) where
  writer : Option ι
  readers : Finset ι
  deriving DecidableEq

namespace Lock

/-- Nobody holds the lock. -/
def free : Lock ι := ⟨none, ∅⟩

variable [DecidableEq ι]

/-- A client takes the lock, if it can be had. -/
def acquire (lock : Lock ι) (client : ι) (exclusive : Bool) : Option (Lock ι) :=
  if lock.writer.isSome then none
  else if exclusive then
    if lock.readers = ∅ then some ⟨some client, ∅⟩ else none
  else some ⟨none, insert client lock.readers⟩

/-- A client lets the lock go. -/
def release (lock : Lock ι) (client : ι) : Lock ι :=
  ⟨if lock.writer = some client then none else lock.writer, lock.readers.erase client⟩

/-- The lock is held as the modes of the clients say: nobody shares it with one that has it
exclusively. -/
structure HeldAs (lock : Lock ι) (modes : ι → Option Bool) : Prop where
  writer : ∀ client, lock.writer = some client ↔ modes client = some true
  readers : ∀ client, client ∈ lock.readers ↔ modes client = some false
  apart : lock.writer = none ∨ lock.readers = ∅

variable {lock lock' : Lock ι} {client : ι} {exclusive : Bool} {modes : ι → Option Bool}

theorem writer_of_acquire (h : lock.acquire client exclusive = some lock') :
    lock.writer = none := by
  unfold acquire at h
  split_ifs at h with hwriter <;> simpa using hwriter

theorem HeldAs.acquire (hheld : lock.HeldAs modes)
    (h : lock.acquire client exclusive = some lock') :
    lock'.HeldAs (Function.update modes client (some exclusive)) := by
  have hwriter := writer_of_acquire h
  have hnone (other : ι) : modes other ≠ some true := by
    intro hmode
    have hother := (hheld.writer other).2 hmode
    rw [hwriter] at hother
    cases hother
  unfold Lock.acquire at h
  rw [hwriter] at h
  cases exclusive with
  | true =>
    simp only [Option.isSome_none, Bool.false_eq_true, if_false, if_true] at h
    split_ifs at h with hreaders
    cases h
    refine ⟨fun other => ?_, fun other => ?_, .inr rfl⟩
    · by_cases hother : other = client
      · simp [hother]
      · simp [hother, hnone, Ne.symm hother]
    · by_cases hother : other = client
      · simp [hother]
      · simp [hother, ← hheld.readers, hreaders]
  | false =>
    simp only [Option.isSome_none, Bool.false_eq_true, if_false] at h
    cases h
    refine ⟨fun other => ?_, fun other => ?_, .inl rfl⟩
    · by_cases hother : other = client
      · simp [hother]
      · simp [hother, hnone]
    · by_cases hother : other = client
      · simp [hother]
      · simp [hother, hheld.readers]

theorem HeldAs.release (hheld : lock.HeldAs modes) (client : ι) :
    (lock.release client).HeldAs (Function.update modes client none) := by
  refine ⟨fun other => ?_, fun other => ?_, ?_⟩
  · by_cases hother : other = client
    · subst hother
      simp [Lock.release]
    · rw [Function.update_of_ne hother, ← hheld.writer, Lock.release]
      by_cases hwriter : lock.writer = some client
      · simp [hwriter, Ne.symm hother]
      · simp [hwriter]
  · by_cases hother : other = client
    · simp [hother, Lock.release]
    · simp [hother, Lock.release, hheld.readers]
  · rcases hheld.apart with hwriter | hreaders
    · exact .inl (by simp [Lock.release, hwriter])
    · exact .inr (by simp [Lock.release, hreaders])

end Lock

/-! ### The system -/

/-- Where a client is: without a call, in front of the lock with a call, or behind it with the rest
of the steps of a section. -/
inductive Place (σ ω ρ : Type)
  | idle
  | waiting (call : Pending ω)
  | inside (call : Pending ω) (body : Program σ (ρ ⊕ ω))

/-- The call of a client. -/
def Place.call? : Place σ ω ρ → Option (Pending ω)
  | idle => none
  | waiting call | inside call _ => some call

/-- How a client holds the lock: exclusively, together with others, or not at all. -/
def Place.mode? (exclusive : ω → Bool) : Place σ ω ρ → Option Bool
  | inside call _ => some (exclusive call.rest)
  | _ => none

/-- An object with a lock and its clients. -/
structure Monitor (ι σ ω ρ : Type) where
  state : σ
  lock : Lock ι
  time : ℕ
  places : ι → Place σ ω ρ
  calls : List (Call ι ω ρ)

/-- What a client does next: invoke an operation, take the lock, do a step behind it, or let the
lock go. -/
inductive Act (ι ω : Type)
  | invoke (client : ι) (operation : ω)
  | acquire (client : ι)
  | step (client : ι)
  | release (client : ι)

/-- How operations work: the steps of a section, and whether it takes the lock exclusively. -/
structure Bodies (σ ω ρ : Type) where
  body : ω → Program σ (ρ ⊕ ω)
  exclusive : ω → Bool

namespace Monitor

/-- The object before any call. -/
def start (state : σ) : Monitor ι σ ω ρ := ⟨state, .free, 0, fun _ => .idle, []⟩

variable [DecidableEq ι]

/-- One act; it changes nothing if it is not the client's turn to do it. -/
def next (bodies : Bodies σ ω ρ) (monitor : Monitor ι σ ω ρ) : Act ι ω → Monitor ι σ ω ρ
  | .invoke client operation => match monitor.places client with
    | .idle => { monitor with
        time := monitor.time + 1
        places := Function.update monitor.places client
          (.waiting ⟨operation, monitor.time, [], operation⟩) }
    | _ => monitor
  | .acquire client => match monitor.places client with
    | .waiting call => match monitor.lock.acquire client (bodies.exclusive call.rest) with
      | none => monitor
      | some lock => { monitor with
          lock
          places := Function.update monitor.places client (.inside call (bodies.body call.rest)) }
    | _ => monitor
  | .step client => match monitor.places client with
    | .inside call (.step effect next) => { monitor with
        state := effect monitor.state
        places := Function.update monitor.places client (.inside call (next monitor.state)) }
    | _ => monitor
  | .release client => match monitor.places client with
    | .inside call (.done (.inl response)) => { monitor with
        lock := monitor.lock.release client
        time := monitor.time + 1
        places := Function.update monitor.places client .idle
        calls := monitor.calls ++
          [⟨client, call.operation, call.invoked, response, monitor.time⟩] }
    | .inside call (.done (.inr rest)) => { monitor with
        lock := monitor.lock.release client
        time := monitor.time + 1
        places := Function.update monitor.places client (.waiting { call with
          trail := call.rest :: call.trail
          rest }) }
    | _ => monitor

/-- A sequence of acts. -/
def run (bodies : Bodies σ ω ρ) : Monitor ι σ ω ρ → List (Act ι ω) → Monitor ι σ ω ρ
  | monitor, [] => monitor
  | monitor, act :: acts => run bodies (monitor.next bodies act) acts

/-- The event of an act for the system with atomic sections: a section happens when its client lets
the lock go. -/
def event? (monitor : Monitor ι σ ω ρ) : Act ι ω → Option (Event ι ω)
  | .invoke client operation => some (.invoke client operation)
  | .acquire _ | .step _ => none
  | .release client => match monitor.places client with
    | .inside _ (.done _) => some (.advance client)
    | _ => none

/-- The events of a sequence of acts. -/
def events (bodies : Bodies σ ω ρ) : Monitor ι σ ω ρ → List (Act ι ω) → List (Event ι ω)
  | _, [] => []
  | monitor, act :: acts =>
    (monitor.event? act).toList ++ events bodies (monitor.next bodies act) acts

end Monitor

/-! ### The simulation -/

/-- The bodies do in steps what the sections do, and those that share the lock only read. -/
structure Implements (bodies : Bodies σ ω ρ) (sections : Sections σ ω ρ) : Prop where
  run_eq : ∀ operation state, (bodies.body operation).run state = sections operation state
  onlyReads : ∀ operation, bodies.exclusive operation = false → (bodies.body operation).OnlyReads

/-- The steps behind the lock come to what the section makes of the object as it was before. -/
structure Simulates (bodies : Bodies σ ω ρ) (sections : Sections σ ω ρ)
    (monitor : Monitor ι σ ω ρ) (system : System ι σ ω ρ) : Prop where
  time : monitor.time = system.time
  calls : monitor.calls = system.calls
  pending : system.pending = Place.call? ∘ monitor.places
  held : monitor.lock.HeldAs (Place.mode? bodies.exclusive ∘ monitor.places)
  state : monitor.lock.writer = none → monitor.state = system.state
  inside : ∀ client call body, monitor.places client = .inside call body →
    body.run monitor.state = sections call.rest system.state ∧
      (bodies.exclusive call.rest = false → body.OnlyReads)

variable {bodies : Bodies σ ω ρ} {sections : Sections σ ω ρ} {monitor : Monitor ι σ ω ρ}
  {system : System ι σ ω ρ}

theorem simulates_start (bodies : Bodies σ ω ρ) (sections : Sections σ ω ρ) (state : σ) :
    Simulates bodies sections (Monitor.start state : Monitor ι σ ω ρ) (System.start state) where
  time := rfl
  calls := rfl
  pending := rfl
  held := ⟨by simp [Monitor.start, Lock.free, Place.mode?],
    by simp [Monitor.start, Lock.free, Place.mode?], .inl rfl⟩
  state _ := rfl
  inside := by rintro _ _ _ ⟨⟩

/-- Behind an exclusive lock there is nobody else. -/
theorem Simulates.alone (h : Simulates bodies sections monitor system) {client : ι}
    {call : Pending ω} {body : Program σ (ρ ⊕ ω)}
    (hplace : monitor.places client = .inside call body)
    (hexclusive : bodies.exclusive call.rest = true) :
    monitor.lock.writer = some client ∧ ∀ other call' body', other ≠ client →
      monitor.places other ≠ .inside call' body' := by
  have hmode (other : ι) {call : Pending ω} {body : Program σ (ρ ⊕ ω)}
      (hinside : monitor.places other = .inside call body) :
      (Place.mode? bodies.exclusive ∘ monitor.places) other =
        some (bodies.exclusive call.rest) := by
    rw [Function.comp_apply, hinside]
    rfl
  have hwriter : monitor.lock.writer = some client :=
    (h.held.writer client).2 (by rw [hmode client hplace, hexclusive])
  refine ⟨hwriter, fun other call' body' hother hinside => ?_⟩
  cases hother' : bodies.exclusive call'.rest with
  | true =>
    have : monitor.lock.writer = some other :=
      (h.held.writer other).2 (by rw [hmode other hinside, hother'])
    rw [hwriter] at this
    exact hother (Option.some.inj this).symm
  | false =>
    have : other ∈ monitor.lock.readers :=
      (h.held.readers other).2 (by rw [hmode other hinside, hother'])
    rcases h.held.apart with hnone | hempty
    · rw [hwriter] at hnone
      cases hnone
    · rw [hempty] at this
      exact absurd this (Finset.notMem_empty other)

/-- Behind a shared lock the object is as the sections before have left it. -/
theorem Simulates.shared (h : Simulates bodies sections monitor system) {client : ι}
    {call : Pending ω} {body : Program σ (ρ ⊕ ω)}
    (hplace : monitor.places client = .inside call body)
    (hshared : bodies.exclusive call.rest = false) :
    monitor.lock.writer = none ∧ monitor.state = system.state := by
  have hmem : client ∈ monitor.lock.readers :=
    (h.held.readers client).2 (by rw [Function.comp_apply, hplace, ← hshared]; rfl)
  have hnone : monitor.lock.writer = none := by
    refine h.held.apart.resolve_right fun hempty => ?_
    rw [hempty] at hmem
    exact absurd hmem (Finset.notMem_empty client)
  exact ⟨hnone, h.state hnone⟩

/-- The other clients behind the lock, when one of them lets it go, find the object as it was. -/
theorem Simulates.others (h : Simulates bodies sections monitor system) {client : ι}
    {call : Pending ω} {body : Program σ (ρ ⊕ ω)}
    (hplace : monitor.places client = .inside call body) (other : ι) (call' : Pending ω)
    (body' : Program σ (ρ ⊕ ω)) (hother : other ≠ client)
    (hinside : monitor.places other = .inside call' body') :
    body'.run monitor.state = sections call'.rest monitor.state ∧
      (bodies.exclusive call'.rest = false → body'.OnlyReads) := by
  cases hexclusive : bodies.exclusive call.rest with
  | true => exact absurd hinside ((h.alone hplace hexclusive).2 other call' body' hother)
  | false =>
    obtain ⟨hrun, hreads⟩ := h.inside other call' body' hinside
    exact ⟨by rw [hrun, (h.shared hplace hexclusive).2], hreads⟩

/-- Whoever holds the lock is behind it. -/
theorem Simulates.inside_of_held (h : Simulates bodies sections monitor system) {client : ι}
    (hheld : monitor.lock.writer = some client ∨ client ∈ monitor.lock.readers) :
    ∃ call body, monitor.places client = .inside call body := by
  rw [h.held.writer, h.held.readers, Function.comp_apply] at hheld
  cases hplace : monitor.places client with
  | idle | waiting call =>
    rw [hplace] at hheld
    rcases hheld with hheld | hheld <;> cases hheld
  | inside call body => exact ⟨call, body, rfl⟩

variable [DecidableEq ι]

theorem setPending_eq (system : System ι σ ω ρ) (client : ι) (call : Option (Pending ω)) :
    system.setPending client call = Function.update system.pending client call := by
  funext other
  rw [System.setPending, Function.update_apply]

/-- The calls on their way after a client has moved. -/
theorem Simulates.setPending (h : Simulates bodies sections monitor system) (client : ι)
    (place : Place σ ω ρ) : system.setPending client place.call? =
      Place.call? ∘ Function.update monitor.places client place := by
  rw [setPending_eq, h.pending, Function.comp_update]

/-- The lock after a client has moved that neither takes it nor lets it go. -/
theorem Simulates.held_update (h : Simulates bodies sections monitor system) (client : ι)
    (place : Place σ ω ρ)
    (hmode : place.mode? bodies.exclusive = (monitor.places client).mode? bodies.exclusive) :
    monitor.lock.HeldAs
      (Place.mode? bodies.exclusive ∘ Function.update monitor.places client place) := by
  have hsame : Function.update (Place.mode? bodies.exclusive ∘ monitor.places) client
      (place.mode? bodies.exclusive) = Place.mode? bodies.exclusive ∘ monitor.places := by
    rw [hmode]
    exact Function.update_eq_self client (Place.mode? bodies.exclusive ∘ monitor.places)
  rw [Function.comp_update, hsame]
  exact h.held

/-- The clients behind the lock after one of them has moved. -/
theorem inside_update {client : ι} {place : Place σ ω ρ}
    (good : Pending ω → Program σ (ρ ⊕ ω) → Prop)
    (hplace : ∀ call body, place = .inside call body → good call body)
    (h : ∀ other call body, other ≠ client → monitor.places other = .inside call body →
      good call body) (other : ι) (call : Pending ω) (body : Program σ (ρ ⊕ ω))
    (hinside : Function.update monitor.places client place other = .inside call body) :
    good call body := by
  by_cases hother : other = client
  · subst hother
    rw [Function.update_self] at hinside
    exact hplace call body hinside
  · rw [Function.update_of_ne hother] at hinside
    exact h other call body hother hinside

/-! ### Acts -/

/-- A client invokes an operation. -/
theorem Simulates.invoke (h : Simulates bodies sections monitor system) (client : ι)
    (operation : ω) : Simulates bodies sections (monitor.next bodies (.invoke client operation))
      (system.next sections (.invoke client operation)) := by
  have hpending : system.pending client = (monitor.places client).call? := congrFun h.pending client
  rw [Monitor.next, System.next, hpending]
  cases hplace : monitor.places client with
  | waiting call | inside call body => exact h
  | idle =>
    refine ⟨congrArg (· + 1) h.time, h.calls, ?_, h.held_update client _ (by rw [hplace]; rfl),
      h.state, ?_⟩
    · rw [← h.time]
      exact h.setPending client (.waiting ⟨operation, monitor.time, [], operation⟩)
    · exact inside_update _ (by rintro _ _ ⟨⟩) fun other call body _ => h.inside other call body

/-- A client takes the lock, when it can be had. -/
theorem Simulates.acquire (hbodies : Implements bodies sections)
    (h : Simulates bodies sections monitor system) (client : ι) :
    Simulates bodies sections (monitor.next bodies (.acquire client)) system := by
  rw [Monitor.next]
  cases hplace : monitor.places client with
  | idle => exact h
  | inside call body => exact h
  | waiting call =>
    cases hacquire : monitor.lock.acquire client (bodies.exclusive call.rest) with
    | none => simp only [hacquire]; exact h
    | some lock =>
      simp only [hacquire]
      have hnone := Lock.writer_of_acquire hacquire
      refine ⟨h.time, h.calls, ?_, ?_, fun _ => h.state hnone, ?_⟩
      · rw [Function.comp_update, h.pending]
        exact (Function.update_eq_self_iff.2 (by rw [Function.comp_apply, hplace]; rfl)).symm
      · rw [Function.comp_update]
        exact h.held.acquire hacquire
      · refine inside_update _ ?_ fun other call body _ => h.inside other call body
        rintro _ _ ⟨⟩
        exact ⟨by rw [hbodies.run_eq, h.state hnone], hbodies.onlyReads _⟩

/-- A client does a step behind the lock. -/
theorem Simulates.step (h : Simulates bodies sections monitor system) (client : ι) :
    Simulates bodies sections (monitor.next bodies (.step client)) system := by
  rw [Monitor.next]
  cases hplace : monitor.places client with
  | idle => exact h
  | waiting call => exact h
  | inside call body =>
    cases body with
    | done outcome => exact h
    | step effect next =>
      obtain ⟨hrun, hreads⟩ := h.inside client call _ hplace
      have hpending : system.pending =
          Place.call? ∘
            Function.update monitor.places client (.inside call (next monitor.state)) := by
        rw [Function.comp_update, h.pending]
        exact (Function.update_eq_self_iff.2 (by rw [Function.comp_apply, hplace]; rfl)).symm
      have hheld := h.held_update client (.inside call (next monitor.state))
        (by rw [hplace]; rfl)
      cases hexclusive : bodies.exclusive call.rest with
      | true =>
        obtain ⟨hwriter, halone⟩ := h.alone hplace hexclusive
        refine ⟨h.time, h.calls, hpending, hheld, fun hnone => ?_, ?_⟩
        · rw [hwriter] at hnone
          cases hnone
        · refine inside_update _ ?_ fun other call' body' hother hinside =>
            absurd hinside (halone other call' body' hother)
          rintro _ _ ⟨⟩
          exact ⟨hrun, fun hshared => by rw [hexclusive] at hshared; cases hshared⟩
      | false =>
        -- a step of a section that shares the lock changes nothing
        obtain ⟨rfl, hnext⟩ := hreads hexclusive
        refine ⟨h.time, h.calls, hpending, hheld, h.state, ?_⟩
        refine inside_update _ ?_ fun other call' body' _ => h.inside other call' body'
        rintro _ _ ⟨⟩
        exact ⟨hrun, fun _ => hnext monitor.state⟩

/-- A client lets the lock go, and its section happens. -/
theorem Simulates.release (h : Simulates bodies sections monitor system) {client : ι}
    {call : Pending ω} {outcome : ρ ⊕ ω}
    (hplace : monitor.places client = .inside call (.done outcome)) :
    Simulates bodies sections (monitor.next bodies (.release client))
      (system.next sections (.advance client)) := by
  have hpending : system.pending client = some call := by
    rw [h.pending, Function.comp_apply, hplace]
    rfl
  have hsection : (outcome, monitor.state) = sections call.rest system.state :=
    (h.inside client call _ hplace).1
  have hheld (place : Place σ ω ρ) (hmode : place.mode? bodies.exclusive = none) :
      (monitor.lock.release client).HeldAs
        (Place.mode? bodies.exclusive ∘ Function.update monitor.places client place) := by
    rw [Function.comp_update, hmode]
    exact h.held.release client
  simp only [Monitor.next, System.next, hplace, hpending, ← hsection]
  cases outcome with
  | inl response =>
    refine ⟨congrArg (· + 1) h.time, by rw [h.calls, h.time], ?_, hheld _ rfl, fun _ => rfl, ?_⟩
    · exact h.setPending client .idle
    · exact inside_update _ (by rintro _ _ ⟨⟩) (h.others hplace)
  | inr rest =>
    refine ⟨congrArg (· + 1) h.time, h.calls, ?_, hheld _ rfl, fun _ => rfl, ?_⟩
    · exact h.setPending client (.waiting { call with trail := call.rest :: call.trail, rest })
    · exact inside_update _ (by rintro _ _ ⟨⟩) (h.others hplace)

/-- One act is no event, or one, of the system with atomic sections. -/
theorem simulates_next (hbodies : Implements bodies sections)
    (h : Simulates bodies sections monitor system) (act : Act ι ω) :
    Simulates bodies sections (monitor.next bodies act)
      (System.run sections system (monitor.event? act).toList) := by
  cases act with
  | invoke client operation => exact h.invoke client operation
  | acquire client => exact h.acquire hbodies client
  | step client => exact h.step client
  | release client =>
    cases hplace : monitor.places client with
    | idle | waiting call =>
      simp only [Monitor.next, Monitor.event?, hplace]
      exact h
    | inside call body =>
      cases body with
      | step effect next =>
        simp only [Monitor.next, Monitor.event?, hplace]
        exact h
      | done outcome =>
        have hevent : monitor.event? (.release client : Act ι ω) = some (.advance client) := by
          rw [Monitor.event?, hplace]
        rw [hevent]
        exact h.release hplace

theorem run_append (sections : Sections σ ω ρ) (system : System ι σ ω ρ)
    (before after : List (Event ι ω)) : System.run sections system (before ++ after) =
      System.run sections (System.run sections system before) after := by
  induction before generalizing system with
  | nil => rfl
  | cons event before ih => exact ih (system.next sections event)

/-- **Steps behind the lock cannot be seen**: a run in steps simulates the run of its events, in
which every section is atomic. -/
theorem simulates_run (hbodies : Implements bodies sections)
    (h : Simulates bodies sections monitor system) (acts : List (Act ι ω)) :
    Simulates bodies sections (Monitor.run bodies monitor acts)
      (System.run sections system (Monitor.events bodies monitor acts)) := by
  induction acts generalizing monitor system with
  | nil => exact h
  | cons act acts ih =>
    rw [Monitor.events, run_append]
    exact ih (simulates_next hbodies h act)

/-! ### Nobody is stuck -/

/-- Several acts after each other. -/
theorem Monitor.run_append (bodies : Bodies σ ω ρ) (monitor : Monitor ι σ ω ρ)
    (before after : List (Act ι ω)) :
    monitor.run bodies (before ++ after) = (monitor.run bodies before).run bodies after := by
  induction before generalizing monitor with
  | nil => rfl
  | cons act before ih => exact ih (monitor.next bodies act)

theorem Monitor.events_append (bodies : Bodies σ ω ρ) (monitor : Monitor ι σ ω ρ)
    (before after : List (Act ι ω)) : monitor.events bodies (before ++ after) =
      monitor.events bodies before ++ (monitor.run bodies before).events bodies after := by
  induction before generalizing monitor with
  | nil => rfl
  | cons act before ih =>
    rw [List.cons_append, Monitor.events, ih, Monitor.events, List.append_assoc]
    rfl

/-- The acts bring a client through its section and out, and nobody else moves. -/
structure Leaves (bodies : Bodies σ ω ρ) (monitor : Monitor ι σ ω ρ) (client : ι)
    (acts : List (Act ι ω)) : Prop where
  events : monitor.events bodies acts = [.advance client]
  lock : (monitor.run bodies acts).lock = monitor.lock.release client
  others : ∀ other, other ≠ client →
    (monitor.run bodies acts).places other = monitor.places other

/-- Behind the lock a client always gets to the end. -/
theorem exists_leaves {client : ι} {call : Pending ω} {body : Program σ (ρ ⊕ ω)}
    (hplace : monitor.places client = .inside call body) :
    ∃ acts, Leaves bodies monitor client acts := by
  induction body generalizing monitor with
  | done outcome =>
    refine ⟨[.release client], ?_⟩
    refine ⟨by simp [Monitor.events, Monitor.event?, hplace], ?_, fun other hother => ?_⟩
    · cases outcome <;> simp [Monitor.run, Monitor.next, hplace]
    · cases outcome <;> simp [Monitor.run, Monitor.next, hplace, hother]
  | step effect next ih =>
    have hnext : monitor.next bodies (.step client) = { monitor with
        state := effect monitor.state
        places := Function.update monitor.places client (.inside call (next monitor.state)) } := by
      rw [Monitor.next, hplace]
    have hinside : (monitor.next bodies (.step client)).places client =
        .inside call (next monitor.state) := by
      rw [hnext]
      exact Function.update_self ..
    obtain ⟨acts, hleaves⟩ := ih monitor.state hinside
    refine ⟨.step client :: acts, hleaves.events, ?_, fun other hother => ?_⟩
    · rw [Monitor.run, hleaves.lock, hnext]
    · rw [Monitor.run, hleaves.others other hother, hnext]
      exact Function.update_of_ne hother ..

/-- A client that waits still waits after another one has gone. -/
theorem Leaves.waiting {client other : ι} {call : Pending ω} {acts : List (Act ι ω)}
    (hleaves : Leaves bodies monitor other acts)
    (hother : ∃ call body, monitor.places other = .inside call body)
    (hwaiting : monitor.places client = .waiting call) :
    client ≠ other ∧ (monitor.run bodies acts).places client = .waiting call := by
  obtain ⟨call', body, hplace⟩ := hother
  have hne : client ≠ other := by
    rintro rfl
    rw [hwaiting] at hplace
    cases hplace
  exact ⟨hne, by rw [hleaves.others client hne, hwaiting]⟩

/-- Those behind the lock can all go, while a client waits. -/
theorem exists_free (hbodies : Implements bodies sections)
    (h : Simulates bodies sections monitor system) {client : ι} {call : Pending ω}
    (hwaiting : monitor.places client = .waiting call) :
    ∃ acts, ∃ others : List ι,
      monitor.events bodies acts = others.map .advance ∧ client ∉ others ∧
      (monitor.run bodies acts).lock = .free ∧
      (monitor.run bodies acts).places client = .waiting call := by
  generalize hcount : monitor.lock.readers.card = count
  induction count generalizing monitor system with
  | zero =>
    have hreaders : monitor.lock.readers = ∅ := Finset.card_eq_zero.1 hcount
    cases hwriter : monitor.lock.writer with
    | none =>
      refine ⟨[], [], rfl, List.not_mem_nil, ?_, hwaiting⟩
      rw [Monitor.run, Lock.free, ← hwriter, ← hreaders]
    | some writer =>
      obtain ⟨call', body, hplace⟩ := h.inside_of_held (.inl hwriter)
      obtain ⟨acts, hleaves⟩ : ∃ acts, Leaves bodies monitor writer acts := exists_leaves hplace
      obtain ⟨hne, hstill⟩ := hleaves.waiting ⟨call', body, hplace⟩ hwaiting
      refine ⟨acts, [writer], hleaves.events, by simpa using hne, ?_, hstill⟩
      rw [hleaves.lock, Lock.release, hwriter, hreaders, if_pos rfl, Finset.erase_empty, Lock.free]
  | succ count ih =>
    obtain ⟨reader, hreader⟩ : monitor.lock.readers.Nonempty := by
      rw [← Finset.card_pos]
      omega
    obtain ⟨call', body, hplace⟩ := h.inside_of_held (.inr hreader)
    obtain ⟨acts, hleaves⟩ : ∃ acts, Leaves bodies monitor reader acts := exists_leaves hplace
    obtain ⟨hne, hstill⟩ := hleaves.waiting ⟨call', body, hplace⟩ hwaiting
    have hcard : (monitor.run bodies acts).lock.readers.card = count := by
      rw [hleaves.lock, Lock.release, Finset.card_erase_of_mem hreader, hcount]
      rfl
    obtain ⟨more, others, hevents, hothers, hfree, hwaits⟩ :=
      ih (simulates_run hbodies h acts) hstill hcard
    refine ⟨acts ++ more, reader :: others, ?_, by simp [hne, hothers], ?_, ?_⟩
    · rw [Monitor.events_append, hleaves.events, hevents]
      rfl
    · rw [Monitor.run_append]
      exact hfree
    · rw [Monitor.run_append]
      exact hwaits

/-- A free lock can be had. -/
theorem acquire_of_free {client : ι} {call : Pending ω} (hfree : monitor.lock = .free)
    (hwaiting : monitor.places client = .waiting call) :
    (monitor.next bodies (.acquire client)).places client =
      .inside call (bodies.body call.rest) := by
  simp only [Monitor.next, hwaiting, hfree, Lock.acquire, Lock.free]
  cases bodies.exclusive call.rest <;> simp

/-- **Nobody is stuck**: whatever has been done, those behind the lock can finish their sections,
and a client with a call can then do its own. -/
theorem exists_advance (hbodies : Implements bodies sections)
    (h : Simulates bodies sections monitor system) {client : ι} {call : Pending ω}
    (hcall : (monitor.places client).call? = some call) :
    ∃ acts, ∃ others : List ι, client ∉ others ∧
      monitor.events bodies acts = (others ++ [client]).map .advance := by
  cases hplace : monitor.places client with
  | idle => rw [hplace] at hcall; cases hcall
  | inside call' body =>
    obtain ⟨acts, hleaves⟩ : ∃ acts, Leaves bodies monitor client acts := exists_leaves hplace
    exact ⟨acts, [], List.not_mem_nil, hleaves.events⟩
  | waiting call' =>
    obtain ⟨before, others, hevents, hothers, hfree, hwaits⟩ := exists_free hbodies h hplace
    obtain ⟨acts, hleaves⟩ : ∃ acts, Leaves bodies
        ((monitor.run bodies before).next bodies (.acquire client)) client acts :=
      exists_leaves (acquire_of_free hfree hwaits)
    refine ⟨before ++ .acquire client :: acts, others, hothers, ?_⟩
    rw [Monitor.events_append, hevents, List.map_append, Monitor.events, hleaves.events]
    rfl

end SharedLock
