import VertexDB.Transaction.MvccRowStore

/-!
# What a reader sees of a sequence of writes and erases

`expected calls rowId readerId` is what a reader should see: the row of the last write of the row
id among the calls up to the reader, unless an erase of it follows.  The store agrees exactly when
the row id is `Settled` for the reader (`visibility_iff`).

An erase marks the newest version only, and replaces the mark of an earlier erase.  So when the
last call up to the reader is an erase, an older version may come up that no erase has marked, or
the erased version itself may come up again, its mark replaced by that of a later erase.
-/

namespace VertexDB

/-- A call of `write` or `erase`. -/
inductive VersionCall
  | write (rowId : RowId) (row : Row) (id : TransactionId)
  | erase (rowId : RowId) (id : TransactionId)
  deriving DecidableEq

namespace VersionCall

/-- The row id that is written or erased. -/
def rowId : VersionCall → RowId
  | write rowId _ _ => rowId
  | erase rowId _ => rowId

/-- The transaction identifier. -/
def id : VersionCall → TransactionId
  | write _ _ id => id
  | erase _ id => id

/-- The row that is written. -/
def row? : VersionCall → Option Row
  | write _ row _ => some row
  | erase _ _ => none

/-- Whether a row is written. -/
def isWrite (call : VersionCall) : Bool := call.row?.isSome

end VersionCall

namespace MvccRowStore

/-- One call. -/
def call (store : MvccRowStore) : VersionCall → MvccRowStore
  | .write rowId row id => store.write rowId row id
  | .erase rowId id => store.erase rowId id

/-- A sequence of calls, from a new store. -/
def run (calls : List VersionCall) : MvccRowStore := calls.foldl call empty

/-- The calls on a row id up to a reader. -/
def seen (calls : List VersionCall) (rowId : RowId) (readerId : TransactionId) :
    List VersionCall :=
  calls.filter fun call => call.rowId = rowId ∧ call.id ≤ readerId

/-- The calls on a row id after a reader. -/
def later (calls : List VersionCall) (rowId : RowId) (readerId : TransactionId) :
    List VersionCall :=
  calls.filter fun call => call.rowId = rowId ∧ readerId < call.id

/-- What a reader should see of a row id: the row of the last call up to the reader, if that is a
write. -/
def expected (calls : List VersionCall) (rowId : RowId) (readerId : TransactionId) : Option Row :=
  (seen calls rowId readerId).getLast?.bind VersionCall.row?

/-- The rows that a reader should see, by increasing row id. -/
def ListsExpected (calls : List VersionCall) (readerId : TransactionId) (rows : List Row) : Prop :=
  ∃ rowIds : List RowId, rowIds.Pairwise (· < ·) ∧
    (∀ rowId, rowId ∈ rowIds ↔ (expected calls rowId readerId).isSome = true) ∧
    rows = rowIds.filterMap fun rowId => expected calls rowId readerId

/-- Not two writes. -/
def Apart (a b : VersionCall) : Prop := ¬ (a.isWrite = true ∧ b.isWrite = true)

/-- If the last call up to the reader is an erase, then no write up to the reader directly follows
another one, and the next call after the reader is not another erase of a row that was written. -/
def Settled (calls : List VersionCall) (rowId : RowId) (readerId : TransactionId) : Prop :=
  ∀ last, (seen calls rowId readerId).getLast? = some last → last.isWrite = false →
    (seen calls rowId readerId).IsChain Apart ∧
      ((∃ call ∈ seen calls rowId readerId, call.isWrite = true) →
        ∀ next, (later calls rowId readerId).head? = some next → next.isWrite = true)

/-! ### The chain of a row id -/

/-- What a call does to the chain of its row id. -/
def chainStep (chain : List RowVersion) : VersionCall → List RowVersion
  | .write _ row id => chain ++ [⟨id, none, row⟩]
  | .erase _ id => markDeleted id chain

/-- The chain that calls on one row id make. -/
def chainOf (calls : List VersionCall) : List RowVersion := calls.foldl chainStep []

theorem getD_find?_call (store : MvccRowStore) (call : VersionCall) (rowId : RowId) :
    ((store.call call).versions.find? rowId).getD [] =
      if call.rowId = rowId then chainStep ((store.versions.find? rowId).getD []) call
      else (store.versions.find? rowId).getD [] := by
  cases call with
  | write written row id =>
    simp only [MvccRowStore.call, write, SortedMap.find?_upsert, VersionCall.rowId]
    by_cases h : rowId = written
    · subst h
      simp [chainStep]
    · simp [h, Ne.symm h]
  | erase erased id =>
    simp only [MvccRowStore.call, erase, SortedMap.find?_adjust, VersionCall.rowId]
    by_cases h : rowId = erased
    · subst h
      cases store.versions.find? rowId <;> simp [chainStep, markDeleted]
    · simp [h, Ne.symm h]

theorem getD_find?_foldl (store : MvccRowStore) (calls : List VersionCall) (rowId : RowId) :
    ((calls.foldl call store).versions.find? rowId).getD [] =
      (calls.filter (·.rowId = rowId)).foldl chainStep ((store.versions.find? rowId).getD []) := by
  induction calls generalizing store with
  | nil => rfl
  | cons first calls ih =>
    rw [List.foldl_cons, ih, getD_find?_call, List.filter_cons]
    by_cases h : first.rowId = rowId
    · simp [h]
    · simp [h]

theorem read_eq (store : MvccRowStore) (rowId : RowId) (readerId : TransactionId) :
    store.read rowId readerId =
      newestVisible ((store.versions.find? rowId).getD []) readerId := by
  rw [read]
  cases store.versions.find? rowId <;> rfl

/-- When identifiers do not decrease, the calls up to a reader come first. -/
theorem filter_eq_seen_append_later {calls : List VersionCall}
    (h : calls.Pairwise fun a b => a.id ≤ b.id) (rowId : RowId) (readerId : TransactionId) :
    calls.filter (·.rowId = rowId) = seen calls rowId readerId ++ later calls rowId readerId := by
  induction calls with
  | nil => rfl
  | cons first calls ih =>
    obtain ⟨hfirst, hrest⟩ := List.pairwise_cons.1 h
    have ih := ih hrest
    unfold seen later at ih ⊢
    by_cases hon : first.rowId = rowId
    · by_cases hle : first.id ≤ readerId
      · simp [hon, hle, not_lt.2 hle, ih]
      · -- every call from here on is after the reader
        have hafter : ∀ call ∈ calls, readerId < call.id := fun call hcall =>
          lt_of_lt_of_le (not_le.1 hle) (hfirst call hcall)
        have hnone : calls.filter (fun call => call.rowId = rowId ∧ call.id ≤ readerId) = [] := by
          rw [List.filter_eq_nil_iff]
          intro call hcall
          simp [not_le.2 (hafter call hcall)]
        rw [hnone, List.nil_append] at ih
        rw [List.filter_cons_of_pos (by simpa using hon), ih,
          List.filter_cons_of_neg (by simp [hle]), hnone,
          List.filter_cons_of_pos (by simp [hon, not_le.1 hle])]
        rfl
    · simp [hon, ih]

theorem read_run {calls : List VersionCall} (h : calls.Pairwise fun a b => a.id ≤ b.id)
    (rowId : RowId) (readerId : TransactionId) :
    (run calls).read rowId readerId = newestVisible
      ((later calls rowId readerId).foldl chainStep (chainOf (seen calls rowId readerId)))
      readerId := by
  rw [read_eq, run, getD_find?_foldl, filter_eq_seen_append_later h rowId readerId,
    List.foldl_append]
  rfl

/-! ### Calls after the reader -/

theorem newestVisible_append (older newer : List RowVersion) (readerId : TransactionId) :
    newestVisible (older ++ newer) readerId =
      (newestVisible newer readerId).or (newestVisible older readerId) := by
  rw [newestVisible, List.reverse_append, List.find?_append, Option.map_or]
  rfl

theorem newestVisible_singleton (version : RowVersion) (readerId : TransactionId) :
    newestVisible [version] readerId =
      if version.visibleTo readerId = true then some version.row else none := by
  rw [newestVisible, List.reverse_singleton, List.find?_singleton]
  split_ifs <;> rfl

theorem newestVisible_eq_none_iff {chain : List RowVersion} {readerId : TransactionId} :
    newestVisible chain readerId = none ↔
      ∀ version ∈ chain, version.visibleTo readerId = false := by
  rw [newestVisible, Option.map_eq_none_iff, List.find?_eq_none]
  simp

variable {readerId : TransactionId}

theorem newestVisible_of_created {newer : List RowVersion}
    (h : ∀ version ∈ newer, readerId < version.createdBy) : newestVisible newer readerId = none :=
  newestVisible_eq_none_iff.2 fun version hv => by
    simp [RowVersion.visibleTo, not_le.2 (h version hv)]

/-- Calls after the reader do not change versions that they do not mark. -/
theorem newestVisible_foldl_of_unmarked {calls : List VersionCall}
    (hcalls : ∀ call ∈ calls, readerId < call.id) {older newer : List RowVersion}
    (hnewer : ∀ version ∈ newer, readerId < version.createdBy)
    (hunmarked : older = [] ∨ newer ≠ []) :
    newestVisible (calls.foldl chainStep (older ++ newer)) readerId =
      newestVisible older readerId := by
  induction calls generalizing newer with
  | nil => rw [List.foldl_nil, newestVisible_append, newestVisible_of_created hnewer]; rfl
  | cons first calls ih =>
    obtain ⟨hfirst, hothers⟩ := List.forall_mem_cons.1 hcalls
    rw [List.foldl_cons]
    cases first with
    | write rowId row id =>
      rw [chainStep, List.append_assoc]
      refine ih hothers (fun version hv => ?_) (.inr (by simp))
      rcases List.mem_append.1 hv with hv | hv
      · exact hnewer version hv
      · rw [List.mem_singleton.1 hv]
        exact hfirst
    | erase rowId id =>
      have hmarked : ∀ version ∈ markDeleted id newer, readerId < version.createdBy := by
        intro version hv
        obtain ⟨old, hold, hcreated, -⟩ := mem_markDeleted hv
        rw [hcreated]
        exact hnewer old hold
      -- the mark goes to the newest version, which is not among the older ones
      rcases List.eq_nil_or_concat newer with rfl | ⟨rest, newest, rfl⟩
      · have hnil : older = [] := hunmarked.resolve_right (by simp)
        subst hnil
        exact ih hothers hmarked (.inl rfl)
      · rw [chainStep, markDeleted_append id older (by simp)]
        refine ih hothers hmarked (.inr ?_)
        rw [List.concat_eq_append, markDeleted_append id rest (by simp)]
        simp [markDeleted]

/-- Calls after the reader leave a visible version visible: their marks are later. -/
theorem newestVisible_foldl_of_visible {calls : List VersionCall}
    (hcalls : ∀ call ∈ calls, readerId < call.id) {older newer : List RowVersion}
    {version : RowVersion} (hvisible : version.visibleTo readerId = true)
    (hnewer : ∀ version ∈ newer, readerId < version.createdBy) :
    newestVisible (calls.foldl chainStep (older ++ (version :: newer))) readerId =
      some version.row := by
  induction calls generalizing version newer with
  | nil =>
    rw [List.foldl_nil, newestVisible_append, ← List.singleton_append, newestVisible_append,
      newestVisible_of_created hnewer, newestVisible_singleton, if_pos hvisible]
    rfl
  | cons first calls ih =>
    obtain ⟨hfirst, hothers⟩ := List.forall_mem_cons.1 hcalls
    rw [List.foldl_cons]
    cases first with
    | write rowId row id =>
      rw [chainStep, List.append_assoc, List.cons_append]
      refine ih hothers hvisible fun version hv => ?_
      rcases List.mem_append.1 hv with hv | hv
      · exact hnewer version hv
      · rw [List.mem_singleton.1 hv]
        exact hfirst
    | erase rowId id =>
      rw [chainStep, markDeleted_append id older (by simp)]
      cases newer with
      | nil =>
        -- the version itself is marked, but later than the reader
        have hmarked : ({ version with deletedBy := some id } : RowVersion).visibleTo readerId =
            true := by
          simp only [RowVersion.visibleTo, Bool.and_eq_true] at hvisible ⊢
          exact ⟨hvisible.1, by simpa [VersionCall.id] using hfirst⟩
        exact ih hothers hmarked (by simp)
      | cons next rest =>
        rw [← List.singleton_append, markDeleted_append id [version] (by simp)]
        refine ih hothers hvisible fun version hv => ?_
        obtain ⟨old, hold, hcreated, -⟩ := mem_markDeleted hv
        rw [hcreated]
        exact hnewer old hold

/-! ### Calls up to the reader -/

theorem isChain_apart_of_forall {calls : List VersionCall}
    (h : ∀ call ∈ calls, call.isWrite = false) : calls.IsChain Apart := by
  refine List.Pairwise.isChain (List.pairwise_of_forall_mem_list fun a ha b _ => ?_)
  rintro ⟨hwrite, -⟩
  rw [h a ha] at hwrite
  cases hwrite

/-- Appending a call to a list that ends in `last`. -/
theorem isChain_apart_concat {calls : List VersionCall} {last : VersionCall}
    (hlast : calls.getLast? = some last) (next : VersionCall) :
    (calls ++ [next]).IsChain Apart ↔ calls.IsChain Apart ∧ Apart last next := by
  rw [List.isChain_append, hlast]
  simp

/-- The chain of the calls up to a reader: its newest version is marked if the last call is an
erase, and the older ones are marked if no write directly follows another. -/
theorem chainOf_cases {calls : List VersionCall} (h : ∀ call ∈ calls, call.id ≤ readerId) :
    (chainOf calls = [] ∧ ∀ call ∈ calls, call.isWrite = false) ∨
      ∃ older version last, chainOf calls = older ++ [version] ∧
        (∃ call ∈ calls, call.isWrite = true) ∧ calls.getLast? = some last ∧
        version.createdBy ≤ readerId ∧
        (∀ row, last.row? = some row → version.deletedBy = none ∧ version.row = row) ∧
        (last.row? = none → ∃ id ≤ readerId, version.deletedBy = some id) ∧
        ((∀ old ∈ older, old.visibleTo readerId = false) ↔ calls.IsChain Apart) := by
  induction calls using List.reverseRecOn with
  | nil => exact .inl ⟨rfl, by simp⟩
  | append_singleton calls next ih =>
    have hnext : next.id ≤ readerId := h next (by simp)
    have hstep : chainOf (calls ++ [next]) = chainStep (chainOf calls) next := by
      rw [chainOf, List.foldl_append]
      rfl
    rcases ih fun call hcall => h call (by simp [hcall]) with
      ⟨hnil, hnone⟩ | ⟨older, version, last, hchain, hsome, hlast, hcreated, hrow, hmark, holder⟩
    · cases next with
      | write rowId row id =>
        refine .inr ⟨[], ⟨id, none, row⟩,
          .write rowId row id, ?_, ⟨.write rowId row id, by simp, rfl⟩, by simp, hnext, ?_,
            nofun, ?_⟩
        · rw [hstep, hnil]
          rfl
        · rintro _ ⟨⟩
          exact ⟨rfl, rfl⟩
        · refine iff_of_true (by simp) (List.isChain_append.2
            ⟨isChain_apart_of_forall hnone, List.isChain_singleton _, ?_⟩)
          intro last hlast _ _ hboth
          have := hnone last (List.mem_of_getLast? hlast)
          rw [hboth.1] at this
          cases this
      | erase rowId id =>
        refine .inl ⟨by rw [hstep, hnil]; rfl, fun call hcall => ?_⟩
        rcases List.mem_append.1 hcall with hcall | hcall
        · exact hnone call hcall
        · rw [List.mem_singleton.1 hcall]
          rfl
    · obtain ⟨written, hwritten, hwrite⟩ := hsome
      have hsome' : ∃ call ∈ calls ++ [next], call.isWrite = true :=
        ⟨written, by simp [hwritten], hwrite⟩
      cases next with
      | write rowId row id =>
        refine .inr ⟨older ++ [version], ⟨id, none, row⟩, .write rowId row id, ?_, hsome', by simp,
          hnext, ?_, nofun, ?_⟩
        · rw [hstep, hchain]
          rfl
        · rintro _ ⟨⟩
          exact ⟨rfl, rfl⟩
        · rw [isChain_apart_concat hlast, ← holder, List.forall_mem_append,
            List.forall_mem_singleton]
          -- the version that was the newest is hidden exactly when the call before was an erase
          refine and_congr_right fun _ => ?_
          cases hlastRow : last.row? with
          | some written =>
            obtain ⟨hunmarked, -⟩ := hrow written hlastRow
            have hwritten : last.isWrite = true := by rw [VersionCall.isWrite, hlastRow]; rfl
            have hnew : (VersionCall.write rowId row id).isWrite = true := rfl
            simp [RowVersion.visibleTo, hcreated, hunmarked, Apart, hwritten, hnew]
          | none =>
            obtain ⟨marked, hle, hmarked⟩ := hmark hlastRow
            simp [RowVersion.visibleTo, hmarked, not_lt.2 hle, Apart, VersionCall.isWrite, hlastRow]
      | erase rowId id =>
        refine .inr ⟨older, { version with deletedBy := some id }, .erase rowId id, ?_, hsome',
          by simp, hcreated, nofun, fun _ => ⟨id, hnext, rfl⟩, ?_⟩
        · rw [hstep, hchain, chainStep, markDeleted_append id older (by simp)]
          rfl
        · rw [isChain_apart_concat hlast, holder]
          simp [Apart, VersionCall.isWrite, VersionCall.row?]

/-! ### Visibility -/

theorem mem_seen {calls : List VersionCall} {rowId : RowId} :
    ∀ call ∈ seen calls rowId readerId, call.id ≤ readerId := by
  intro call hcall
  have := (List.mem_filter.1 hcall).2
  simp only [decide_eq_true_eq] at this
  exact this.2

theorem mem_later {calls : List VersionCall} {rowId : RowId} :
    ∀ call ∈ later calls rowId readerId, readerId < call.id := by
  intro call hcall
  have := (List.mem_filter.1 hcall).2
  simp only [decide_eq_true_eq] at this
  exact this.2

/-- A reader sees what it should, or an erased row; the latter exactly when the row id is not
settled. -/
theorem read_cases {calls : List VersionCall} (h : calls.Pairwise fun a b => a.id ≤ b.id)
    (rowId : RowId) (readerId : TransactionId) :
    Settled calls rowId readerId ∧
        (run calls).read rowId readerId = expected calls rowId readerId ∨
      ¬ Settled calls rowId readerId ∧ expected calls rowId readerId = none ∧
        ((run calls).read rowId readerId).isSome = true := by
  have hlater := @mem_later readerId calls rowId
  rw [read_run h, expected]
  rcases chainOf_cases (@mem_seen readerId calls rowId) with
    ⟨hnil, hnone⟩ | ⟨older, version, last, hchain, hsome, hlast, hcreated, hrow, hmark, holder⟩
  · -- the row id was not written up to the reader
    refine .inl ⟨fun last _ _ => ⟨isChain_apart_of_forall hnone, ?_⟩, ?_⟩
    · rintro ⟨call, hcall, hwrite⟩
      rw [hnone call hcall] at hwrite
      cases hwrite
    · have hhidden := @newestVisible_foldl_of_unmarked readerId _ hlater [] [] (by simp) (.inl rfl)
      rw [hnil]
      refine hhidden.trans ?_
      cases hlast : (seen calls rowId readerId).getLast? with
      | none => rfl
      | some last =>
        have hlastNone := hnone last (List.mem_of_getLast? hlast)
        rw [VersionCall.isWrite, Option.isSome_eq_false_iff, Option.isNone_iff_eq_none] at hlastNone
        rw [Option.bind_some, hlastNone]
        rfl
  rw [hchain, hlast, Option.bind_some]
  cases hlastRow : last.row? with
  | some row =>
    -- the last call up to the reader wrote, so its version is the newest one
    obtain ⟨hunmarked, rfl⟩ := hrow row hlastRow
    refine .inl ⟨fun last' hlast' herase => ?_, ?_⟩
    · rw [hlast] at hlast'
      cases hlast'
      rw [VersionCall.isWrite, hlastRow] at herase
      cases herase
    · refine @newestVisible_foldl_of_visible readerId _ hlater _ [] _ ?_ (by simp)
      simp [RowVersion.visibleTo, hcreated, hunmarked]
  | none =>
    -- the last call up to the reader erased, so nothing should be seen
    obtain ⟨marked, hle, hmarked⟩ := hmark hlastRow
    have herase : last.isWrite = false := by rw [VersionCall.isWrite, hlastRow]; rfl
    by_cases hagain : ∃ next, (later calls rowId readerId).head? = some next ∧ next.isWrite = false
    · -- the mark is replaced by a later one
      obtain ⟨next, hhead, hnext⟩ := hagain
      refine .inr ⟨fun hsettled => ?_, rfl, ?_⟩
      · have := (hsettled last hlast herase).2 hsome next hhead
        rw [hnext] at this
        cases this
      · obtain ⟨rest, hrest⟩ := List.head?_eq_some_iff.1 hhead
        rw [hrest] at hlater ⊢
        obtain ⟨hfirst, hothers⟩ := List.forall_mem_cons.1 hlater
        cases next with
        | write _ _ _ => cases hnext
        | erase erased id =>
          rw [List.foldl_cons, chainStep, markDeleted_append id older (by simp)]
          have hvisible : ({ version with deletedBy := some id } : RowVersion).visibleTo readerId =
              true := by
            simp only [RowVersion.visibleTo, Bool.and_eq_true, decide_eq_true_eq]
            exact ⟨hcreated, by simpa [VersionCall.id] using hfirst⟩
          rw [markDeleted, newestVisible_foldl_of_visible hothers hvisible (by simp)]
          rfl
    · -- the mark stays, and older versions come up if they are not marked
      have hread : newestVisible ((later calls rowId readerId).foldl chainStep (older ++ [version]))
          readerId = newestVisible older readerId := by
        have hhidden : newestVisible (older ++ [version]) readerId =
            newestVisible older readerId := by
          rw [newestVisible_append, newestVisible_singleton, if_neg]
          · rfl
          · simp [RowVersion.visibleTo, hmarked, not_lt.2 hle]
        rw [← hhidden]
        cases hcalls : later calls rowId readerId with
        | nil => rfl
        | cons first rest =>
          rw [hcalls] at hlater hagain
          obtain ⟨hfirst, hothers⟩ := List.forall_mem_cons.1 hlater
          cases first with
          | erase erased id => exact absurd ⟨_, rfl, rfl⟩ hagain
          | write rowId row id =>
            rw [List.foldl_cons, chainStep]
            refine newestVisible_foldl_of_unmarked hothers ?_ (.inr (by simp))
            intro version hv
            rw [List.mem_singleton.1 hv]
            exact hfirst
      rw [hread]
      by_cases hapart : (seen calls rowId readerId).IsChain Apart
      · refine .inl ⟨fun _ _ _ => ⟨hapart, fun _ next hhead => ?_⟩, ?_⟩
        · by_contra hnext
          exact hagain ⟨next, hhead, by simpa using hnext⟩
        · exact newestVisible_eq_none_iff.2 (holder.2 hapart)
      · refine .inr ⟨fun hsettled => hapart (hsettled last hlast herase).1, rfl, ?_⟩
        rw [Option.isSome_iff_ne_none]
        exact fun hnone => hapart (holder.1 (newestVisible_eq_none_iff.1 hnone))

/-- Listing what the reader sees by increasing row id. -/
theorem listsExpected_iff {calls : List VersionCall} (h : calls.Pairwise fun a b => a.id ≤ b.id)
    (readerId : TransactionId) :
    ListsExpected calls readerId ((run calls).visibleRows readerId) ↔
      ∀ rowId, Settled calls rowId readerId := by
  have hkey : ∀ rowId, ((run calls).read rowId readerId).isSome = true →
      rowId ∈ (run calls).versions.keys := by
    intro rowId hsome
    rw [read] at hsome
    cases hfind : (run calls).versions.find? rowId with
    | none => rw [hfind] at hsome; cases hsome
    | some chain => exact SortedMap.mem_keys_iff.2 ⟨chain, hfind⟩
  have hnodup : (run calls).versions.keys.Nodup :=
    (run calls).versions.sorted_keys.imp fun hlt => hlt.ne
  constructor
  · rintro ⟨rowIds, hsorted, hmem, hrows⟩ rowId
    by_contra hnot
    rcases read_cases h rowId readerId with ⟨hsettled, -⟩ | ⟨-, hnone, hsome⟩
    · exact hnot hsettled
    -- the reader gets this row in addition to those of `rowIds`
    have hsub : rowId :: rowIds ⊆
        (run calls).versions.keys.filter fun j => ((run calls).read j readerId).isSome := by
      intro j hj
      have hread : ((run calls).read j readerId).isSome = true := by
        rcases List.mem_cons.1 hj with rfl | hj
        · exact hsome
        · rcases read_cases h j readerId with ⟨-, heq⟩ | ⟨-, -, hshown⟩
          · rw [heq]
            exact (hmem j).1 hj
          · exact hshown
      exact List.mem_filter.2 ⟨hkey j hread, hread⟩
    have hnew : rowId ∉ rowIds := by
      intro hold
      have := (hmem rowId).1 hold
      rw [hnone] at this
      cases this
    have hcount := ((List.nodup_cons.2 ⟨hnew, hsorted.imp fun hlt => hlt.ne⟩).subperm
      hsub).length_le
    have hlength := congrArg List.length hrows
    rw [visibleRows, List.length_filterMap_eq_countP, List.length_filterMap_eq_countP,
      List.countP_eq_length_filter, List.countP_eq_length_filter,
      List.filter_eq_self.2 fun j hj => (hmem j).1 hj] at hlength
    rw [List.length_cons, hlength] at hcount
    exact absurd hcount (by simp)
  · intro hsettled
    have hread : ∀ rowId, (run calls).read rowId readerId = expected calls rowId readerId := by
      intro rowId
      rcases read_cases h rowId readerId with ⟨-, heq⟩ | ⟨hnot, -⟩
      · exact heq
      · exact absurd (hsettled rowId) hnot
    refine ⟨(run calls).versions.keys.filter fun rowId => (expected calls rowId readerId).isSome,
      (run calls).versions.sorted_keys.filter _, fun rowId => ?_, ?_⟩
    · rw [List.mem_filter]
      refine and_iff_right_of_imp fun hsome => hkey rowId ?_
      rw [hread]
      exact hsome
    · rw [visibleRows, List.filterMap_filter]
      refine List.filterMap_congr fun rowId _ => ?_
      rw [hread]
      cases expected calls rowId readerId <;> rfl

/-- **A reader sees what it should of a row id exactly when the row id is settled for it**, and
the list of all visible rows is right exactly when every row id is. -/
theorem visibility_iff {calls : List VersionCall} (h : calls.Pairwise fun a b => a.id ≤ b.id)
    (readerId : TransactionId) :
    (∀ rowId, (run calls).read rowId readerId = expected calls rowId readerId ↔
        Settled calls rowId readerId) ∧
      (ListsExpected calls readerId ((run calls).visibleRows readerId) ↔
        ∀ rowId, Settled calls rowId readerId) := by
  refine ⟨fun rowId => ?_, listsExpected_iff h readerId⟩
  rcases read_cases h rowId readerId with ⟨hsettled, heq⟩ | ⟨hnot, hnone, hsome⟩
  · exact iff_of_true heq hsettled
  · refine iff_of_false (fun heq => ?_) hnot
    rw [heq, hnone] at hsome
    cases hsome

/-- Between an erase and a later write the reader sees no row, as it should, so the row id is
settled for it; after two writes and an erase it is not. -/
theorem visibility_iff_rewritten :
    (run [.write 0 [.int 1] 1, .erase 0 2, .write 0 [.int 2] 3]).read 0 2 = none ∧
      Settled [.write 0 [.int 1] 1, .erase 0 2, .write 0 [.int 2] 3] 0 2 ∧
      ¬ Settled [.write 0 [.int 1] 1, .write 0 [.int 2] 3, .erase 0 5] 0 5 := by
  have hrewritten := (@visibility_iff [.write 0 [.int 1] 1, .erase 0 2, .write 0 [.int 2] 3]
    (by decide) 2).1 0
  have hoverwritten := (@visibility_iff [.write 0 [.int 1] 1, .write 0 [.int 2] 3, .erase 0 5]
    (by decide) 5).1 0
  exact ⟨by decide, hrewritten.1 (by decide), fun h => absurd (hoverwritten.2 h) (by decide)⟩

/-- After two writes and an erase, the reader sees the row of the first write. -/
theorem not_visibility_overwritten :
    ([.write 0 [.int 1] 1, .write 0 [.int 2] 3, .erase 0 5] : List VersionCall).Pairwise
        (fun a b => a.id ≤ b.id) ∧
      (run [.write 0 [.int 1] 1, .write 0 [.int 2] 3, .erase 0 5]).read 0 5 = some [.int 1] ∧
      expected [.write 0 [.int 1] 1, .write 0 [.int 2] 3, .erase 0 5] 0 5 = none := by
  refine ⟨by decide, by decide, by decide⟩

end MvccRowStore

end VertexDB
