import VertexDB.Execution.ChainDepth
import VertexDB.Execution.Replies

/-!
# The interactive shell

The loop of `main`: prompt, read a line, parse and execute it, print the result or the error, until
the input ends or a result has the message of `EXIT`.  A statement whose chain of prepared
statements does not end within the depth hangs the shell.

`shell_serves` says that the shell is a session of the executor: each line that is not empty is
answered in its order, and nothing but the end of the input, an `EXIT` or a hanging `EXECUTE` stops
it.  From some depth on the run does not depend on the depth, and the chain of an `EXECUTE` that
hangs never ends.
-/

namespace VertexDB

open Ascii Procedure QueryExecutor

/-- The text of an exception. -/
def Exception.what : Exception → Str
  | .runtimeError what | .invalidArgument what | .outOfRange what => bytes what
  | .outOfFuel => []

namespace Shell

/-- The end of a line. -/
def newline : Byte := 10

/-- The end of a field. -/
def tab : Byte := 9

/-- The lines of an input, as `std::getline` reads them: what follows the last end of line is a line
only if there is something. -/
def lines : Str → List Str
  | [] => []
  | character :: rest =>
    if character = newline then [] :: lines rest
    else match lines rest with
      | [] => [[character]]
      | line :: more => (character :: line) :: more

/-- The fields of a line of the output. -/
def printFields (fields : List Str) : Str := fields.flatMap (· ++ [tab]) ++ [newline]

/-- `printResult`. -/
def printResult (result : QueryResult) : Str :=
  (if result.message = [] then [] else result.message ++ [newline]) ++
    if result.rows = [] then []
    else printFields result.columns ++
      result.rows.flatMap fun row => printFields (row.map Value.toString)

/-- What is written before each line is read. -/
def prompt : Str := bytes "VertexDB> "

/-- What is written on the error stream for an exception. -/
def printError (e : Exception) : Str := bytes "error: " ++ e.what ++ [newline]

/-- Why the shell stops. -/
inductive Ending
  | endOfInput
  | exit
  | hangs
  deriving DecidableEq

/-- What the shell writes on both streams, why it stops, and the executor then. -/
structure Run where
  out : Str
  err : Str
  ending : Ending
  executor : QueryExecutor

/-- A run after some output. -/
def Run.after (out err : Str) (run : Run) : Run :=
  { run with out := out ++ run.out, err := err ++ run.err }

variable (platform : Platform) (depth : ℕ)

/-- The loop of `main`. -/
def loop : List Str → QueryExecutor → Run
  | [], s => ⟨prompt, [], .endOfInput, s⟩
  | line :: rest, s =>
    if line = [] then (loop rest s).after prompt []
    else match respond platform depth line s with
      | (.ok result, s') =>
        if result.message = bytes "exit" then ⟨prompt ++ printResult result, [], .exit, s'⟩
        else (loop rest s').after (prompt ++ printResult result) []
      | (.error .outOfFuel, s') => ⟨prompt, [], .hangs, s'⟩
      | (.error e, s') => (loop rest s').after prompt (printError e)

/-- What is written when the shell starts. -/
def banner : Str := bytes "VertexDB interactive shell. Type EXIT; to quit." ++ [newline]

/-- `main`, on the files of the storage root. -/
def main (disk : Disk) (input : Str) : Run :=
  (loop platform depth (lines input) (start platform disk)).after banner []

/-! ### Lines -/

theorem lines_append {text : Str} (h : newline ∉ text) (rest : Str) :
    lines (text ++ newline :: rest) = text :: lines rest := by
  induction text with
  | nil => rfl
  | cons character text ih =>
    rw [List.mem_cons, not_or] at h
    rw [List.cons_append, lines, if_neg (Ne.symm h.1), ih h.2]

/-- Texts on lines of their own are read back. -/
theorem lines_flatMap {texts : List Str} (h : ∀ text ∈ texts, newline ∉ text) :
    lines (texts.flatMap (· ++ [newline])) = texts := by
  induction texts with
  | nil => rfl
  | cons text texts ih =>
    rw [List.forall_mem_cons] at h
    rw [List.flatMap_cons, List.append_assoc, List.singleton_append, lines_append h.1, ih h.2]

/-! ### The session -/

/-- The lines that are statements. -/
def texts (lines : List Str) : List Str := lines.filter (· ≠ [])

/-- What is written on the output stream for a reply. -/
def printReply : Outcome → Str
  | .ok result => printResult result
  | .error _ => []

/-- What is written on the error stream for a reply. -/
def printFailure : Outcome → Str
  | .error .outOfFuel | .ok _ => []
  | .error e => printError e

/-- What is written on the output stream when lines have been read and statements replied to. -/
def transcript : List Str → List Outcome → Str
  | [], _ => []
  | [] :: lines, replies => prompt ++ transcript lines replies
  | _ :: _, [] => []
  | _ :: lines, reply :: replies => prompt ++ printReply reply ++ transcript lines replies

/-- No text comes to an `EXIT`, and none hangs. -/
def Lasts (texts : List Str) (s : QueryExecutor) : Prop :=
  Allows platform depth (fun _ query => query ≠ .exit) texts s ∧
    ∀ reply ∈ (converse platform depth texts s).1, reply ≠ .error .outOfFuel

/-- Why a shell that has read some lines, and not those that are left, has stopped. -/
def StopsFor (served left : List Str) (s : QueryExecutor) : Ending → Prop
  | .endOfInput => left = [] ∧ Lasts platform depth (texts served) s
  | .exit => ∃ before last, served = before ++ [last] ∧ last ≠ [] ∧
      Lasts platform depth (texts before) s ∧
      (converse platform depth (texts before) s).2.comesTo depth last = some .exit
  | .hangs => ∃ before last, served = before ++ [last] ∧ last ≠ [] ∧
      Lasts platform depth (texts before) s ∧
      (respond platform depth last (converse platform depth (texts before) s).2).1 =
        .error .outOfFuel

/-- The shell has read some lines and answered them as the executor does, and had a reason to
stop. -/
structure Serves (served left : List Str) (s : QueryExecutor) (run : Run) : Prop where
  executor : run.executor = (converse platform depth (texts served) s).2
  err : run.err = (converse platform depth (texts served) s).1.flatMap printFailure
  out : run.out = transcript served (converse platform depth (texts served) s).1 ++
    if run.ending = .endOfInput then prompt else []
  stops : StopsFor platform depth served left s run.ending

variable {platform : Platform} {depth : ℕ} {s s' : QueryExecutor} {line : Str}
  {served left : List Str} {run : Run} {reply : Outcome}

theorem texts_cons_nil (lines : List Str) : texts ([] :: lines) = texts lines := by simp [texts]

theorem texts_cons (h : line ≠ []) (lines : List Str) :
    texts (line :: lines) = line :: texts lines := by simp [texts, h]

theorem converse_cons (hreply : respond platform depth line s = (reply, s')) (texts : List Str) :
    converse platform depth (line :: texts) s =
      (reply :: (converse platform depth texts s').1, (converse platform depth texts s').2) := by
  rw [converse, hreply]

theorem transcript_cons (h : line ≠ []) (lines : List Str) (replies : List Outcome) :
    transcript (line :: lines) (reply :: replies) =
      prompt ++ printReply reply ++ transcript lines replies := by
  cases line with
  | nil => exact absurd rfl h
  | cons character line => rfl

/-- A session that lasts, after one more text. -/
theorem Lasts.cons (hreply : respond platform depth line s = (reply, s'))
    (hexit : s.comesTo depth line ≠ some .exit) (hfuel : reply ≠ .error .outOfFuel)
    {texts : List Str} (h : Lasts platform depth texts s') :
    Lasts platform depth (line :: texts) s := by
  refine ⟨⟨?_, ?_⟩, ?_⟩
  · rintro query hquery rfl
    exact hexit hquery
  · rw [hreply]
    exact h.1
  · rw [converse_cons hreply, List.forall_mem_cons]
    exact ⟨hfuel, h.2⟩

/-- One more line, by what it makes of the session. -/
theorem StopsFor.cons {ending : Ending} (hlasts : ∀ lines, Lasts platform depth (texts lines) s' →
      Lasts platform depth (texts (line :: lines)) s)
    (hstate : ∀ lines, (converse platform depth (texts (line :: lines)) s).2 =
      (converse platform depth (texts lines) s').2)
    (h : StopsFor platform depth served left s' ending) :
    StopsFor platform depth (line :: served) left s ending := by
  cases ending with
  | endOfInput => exact ⟨h.1, hlasts _ h.2⟩
  | exit =>
    obtain ⟨before, last, rfl, hne, hbefore, hlast⟩ := h
    exact ⟨line :: before, last, rfl, hne, hlasts _ hbefore, by rw [hstate]; exact hlast⟩
  | hangs =>
    obtain ⟨before, last, rfl, hne, hbefore, hlast⟩ := h
    exact ⟨line :: before, last, rfl, hne, hlasts _ hbefore, by rw [hstate]; exact hlast⟩

/-- An empty line is not a statement. -/
theorem Serves.empty (h : Serves platform depth served left s run) :
    Serves platform depth ([] :: served) left s (run.after prompt []) where
  executor := by rw [texts_cons_nil]; exact h.executor
  err := by rw [texts_cons_nil]; exact h.err
  out := by rw [texts_cons_nil, Run.after, transcript, h.out, List.append_assoc]
  stops := h.stops.cons (fun lines hlasts => by rwa [texts_cons_nil])
    fun lines => by rw [texts_cons_nil]

/-- A line is answered. -/
theorem Serves.cons (hline : line ≠ []) (hreply : respond platform depth line s = (reply, s'))
    (hexit : s.comesTo depth line ≠ some .exit) (hfuel : reply ≠ .error .outOfFuel)
    (h : Serves platform depth served left s' run) :
    Serves platform depth (line :: served) left s
      (run.after (prompt ++ printReply reply) (printFailure reply)) where
  executor := by rw [texts_cons hline, converse_cons hreply]; exact h.executor
  err := by
    rw [texts_cons hline, converse_cons hreply, List.flatMap_cons, Run.after, h.err]
  out := by
    rw [texts_cons hline, converse_cons hreply, transcript_cons hline, Run.after, h.out]
    simp only [List.append_assoc]
  stops := h.stops.cons (fun lines hlasts => by
      rw [texts_cons hline]
      exact hlasts.cons hreply hexit hfuel)
    fun lines => by rw [texts_cons hline, converse_cons hreply]

/-- The shell stops after the reply to a line. -/
theorem serves_last (hline : line ≠ []) (hreply : respond platform depth line s = (reply, s'))
    (hexecutor : run.executor = s') (herr : run.err = printFailure reply)
    (hout : run.out = prompt ++ printReply reply) (hending : run.ending ≠ .endOfInput)
    (hstops : StopsFor platform depth [line] left s run.ending) :
    Serves platform depth [line] left s run where
  executor := by rw [texts_cons hline, converse_cons hreply]; exact hexecutor
  err := by
    rw [texts_cons hline, converse_cons hreply]
    exact herr.trans (List.append_nil _).symm
  out := by
    rw [texts_cons hline, converse_cons hreply, if_neg hending, hout, transcript_cons hline]
    simp [transcript]
  stops := hstops

/-- The reply has the message of an `EXIT`. -/
def Exits (reply : Outcome) : Prop := ∃ result, reply = .ok result ∧ result.message = bytes "exit"

theorem exits_iff (hreply : respond platform depth line s = (reply, s')) :
    Exits reply ↔ s.comesTo depth line = some .exit := by
  have hiff : s.comesTo depth line = some .exit ↔ ∃ result,
      (respond platform depth line s).1 = .ok result ∧ result.message = bytes "exit" :=
    comesTo_exit_iff
  rw [hreply] at hiff
  exact hiff.symm

/-- The shell stops at the reply of an `EXIT`. -/
theorem loop_of_exits (hline : line ≠ []) (hreply : respond platform depth line s = (reply, s'))
    (hexits : Exits reply) (rest : List Str) : loop platform depth (line :: rest) s =
      ⟨prompt ++ printReply reply, [], .exit, s'⟩ := by
  obtain ⟨result, rfl, hmessage⟩ := hexits
  rw [loop, if_neg hline, hreply]
  exact if_pos hmessage

/-- It goes on after every other reply. -/
theorem loop_of_reply (hline : line ≠ []) (hreply : respond platform depth line s = (reply, s'))
    (hexits : ¬ Exits reply) (hfuel : reply ≠ .error .outOfFuel) (rest : List Str) :
    loop platform depth (line :: rest) s =
      (loop platform depth rest s').after (prompt ++ printReply reply) (printFailure reply) := by
  rw [loop, if_neg hline, hreply]
  cases reply with
  | ok result => exact if_neg fun hmessage => hexits ⟨result, rfl, hmessage⟩
  | error e =>
    cases e with
    | outOfFuel => exact absurd rfl hfuel
    | _ => simp only [printReply, printFailure, List.append_nil]

/-- A line that is not answered hangs the shell. -/
theorem loop_of_outOfFuel (hline : line ≠ [])
    (hreply : respond platform depth line s = (.error .outOfFuel, s')) (rest : List Str) :
    loop platform depth (line :: rest) s = ⟨prompt, [], .hangs, s'⟩ := by
  rw [loop, if_neg hline, hreply]

theorem lasts_nil : Lasts platform depth [] s := ⟨trivial, nofun⟩

/-- At any depth the shell reads some of the lines and serves them. -/
theorem serves_loop (platform : Platform) (depth : ℕ) (lines : List Str) (s : QueryExecutor) :
    ∃ served left, lines = served ++ left ∧
      Serves platform depth served left s (loop platform depth lines s) := by
  induction lines generalizing s with
  | nil => exact ⟨[], [], rfl, rfl, rfl, rfl, rfl, lasts_nil⟩
  | cons line rest ih =>
    by_cases hline : line = []
    · subst hline
      obtain ⟨served, left, rfl, hserves⟩ := ih s
      rw [loop, if_pos rfl]
      exact ⟨[] :: served, left, rfl, hserves.empty⟩
    · rcases hreply : respond platform depth line s with ⟨reply, s'⟩
      by_cases hfuel : reply = .error .outOfFuel
      · subst hfuel
        rw [loop_of_outOfFuel hline hreply]
        exact ⟨[line], rest, rfl, serves_last hline hreply rfl rfl rfl nofun
          ⟨[], line, rfl, hline, lasts_nil, congrArg Prod.fst hreply⟩⟩
      · have hexit := exits_iff hreply
        by_cases hexits : Exits reply
        · have hlast := hexit.1 hexits
          rw [loop_of_exits hline hreply hexits]
          obtain ⟨result, rfl, -⟩ := hexits
          exact ⟨[line], rest, rfl, serves_last hline hreply rfl rfl rfl nofun
            ⟨[], line, rfl, hline, lasts_nil, hlast⟩⟩
        · obtain ⟨served, left, rfl, hserves⟩ := ih s'
          rw [loop_of_reply hline hreply hexits hfuel]
          exact ⟨line :: served, left, rfl,
            hserves.cons hline hreply (fun heq => hexits (hexit.2 heq)) hfuel⟩

/-- The depth is enough for the lines: a greater one does not change the run, and if the shell
hangs, it is at a line whose chain never ends. -/
structure Enough (platform : Platform) (depth : ℕ) (lines : List Str) (s : QueryExecutor) :
    Prop where
  same : ∀ more, loop platform (depth + more) lines s = loop platform depth lines s
  hangs : (loop platform depth lines s).ending = .hangs → ∃ before last left,
    lines = before ++ last :: left ∧
      (converse platform depth (texts before) s).2.NeverEnds last

/-- Some depth is enough, and every greater one. -/
theorem exists_enough (platform : Platform) (lines : List Str) (s : QueryExecutor) :
    ∃ depth, ∀ more, Enough platform (depth + more) lines s := by
  induction lines generalizing s with
  | nil => exact ⟨0, fun _ => ⟨fun _ => rfl, nofun⟩⟩
  | cons line rest ih =>
    by_cases hline : line = []
    · subst hline
      obtain ⟨depth, hdepth⟩ := ih s
      refine ⟨depth, fun more => ⟨fun more' => ?_, fun hhangs => ?_⟩⟩
      · rw [loop, loop, if_pos rfl, if_pos rfl, (hdepth more).same]
      · rw [loop, if_pos rfl] at hhangs
        obtain ⟨before, last, left, rfl, hnever⟩ := (hdepth more).hangs hhangs
        exact ⟨[] :: before, last, left, rfl, by rwa [texts_cons_nil]⟩
    · by_cases hnever : s.NeverEnds line
      · refine ⟨0, fun more => ⟨fun more' => ?_, fun _ => ⟨[], line, rest, rfl, hnever⟩⟩⟩
        rw [loop_of_outOfFuel hline (hnever.respond _), loop_of_outOfFuel hline (hnever.respond _)]
      · obtain ⟨first, hfuel, hsame⟩ := respond_of_not_neverEnds platform hnever
        rcases hreply : respond platform first line s with ⟨reply, s'⟩
        rw [hreply] at hfuel hsame
        obtain ⟨depth, hdepth⟩ := ih s'
        refine ⟨first + depth, fun more => ?_⟩
        rw [Nat.add_assoc]
        by_cases hexits : Exits reply
        · refine ⟨fun more' => ?_, fun hhangs => ?_⟩
          · rw [Nat.add_assoc, loop_of_exits hline (hsame _) hexits,
              loop_of_exits hline (hsame _) hexits]
          · rw [loop_of_exits hline (hsame _) hexits] at hhangs
            cases hhangs
        · have hloop (n : ℕ) := loop_of_reply hline (hsame n) hexits hfuel rest
          have henough : Enough platform (first + (depth + more)) rest s' := by
            rw [Nat.add_left_comm]
            exact hdepth (first + more)
          refine ⟨fun more' => ?_, fun hhangs => ?_⟩
          · have hsame' := henough.same more'
            rw [Nat.add_assoc] at hsame' ⊢
            rw [hloop, hloop, hsame']
          · rw [hloop] at hhangs
            obtain ⟨before, last, left, rfl, hlast⟩ := henough.hangs hhangs
            refine ⟨line :: before, last, left, rfl, ?_⟩
            rw [texts_cons hline, converse_cons (hsame _)]
            exact hlast

/-- **The shell serves a session**: it reads some of the lines, and answers those that are not empty
one after the other on its output and its error stream.  It stops at the end of the input, or at
the first line that comes to an `EXIT`, or because a chain of prepared statements does not end
within the depth.  From some depth on the run is the same at every depth, and a chain at which the
shell hangs then does not end at all. -/
theorem shell_serves (platform : Platform) (lines : List Str) (s : QueryExecutor) :
    (∀ depth, ∃ served left, lines = served ++ left ∧
      Serves platform depth served left s (loop platform depth lines s)) ∧
    ∃ depth, ∀ more, Enough platform (depth + more) lines s :=
  ⟨fun depth => serves_loop platform depth lines s, exists_enough platform lines s⟩

/-- The same for a whole run of the program, when the input has each text on a line of its own. -/
theorem main_serves (platform : Platform) (depth : ℕ) (disk : Disk) {texts : List Str}
    (h : ∀ text ∈ texts, newline ∉ text) : ∃ served left run, texts = served ++ left ∧
      main platform depth disk (texts.flatMap (· ++ [newline])) = run.after banner [] ∧
      Serves platform depth served left (start platform disk) run := by
  obtain ⟨served, left, heq, hserves⟩ := serves_loop platform depth texts (start platform disk)
  refine ⟨served, left, _, heq, ?_, hserves⟩
  rw [main, lines_flatMap h]

end Shell

end VertexDB
