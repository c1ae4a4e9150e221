import VertexDB.Lib.Transducer
import VertexDB.Parser.Lexing

/-!
# The tokenizer, byte by byte

The tokenizer jumps from token to token.  Here it reads one byte after the other and remembers
where in the text it stands (`Place`): between tokens, in a name, in a number or in a string
literal.  A token is emitted as its type, and as its contents when it is a string literal; that is
all that `scan` says of a text, and it agrees with `tokenize` (`scan_eq`).
-/

namespace VertexDB

open Ascii Transducer

/-- What is kept of a token: its type, and its contents if it is a string literal. -/
def Token.mark (token : Token) : TokenType × Str :=
  (token.type, if token.type = .string then token.lexeme else [])

/-- The contents of the string literals. -/
def literalsOf (marks : List (TokenType × Str)) : List Str :=
  (marks.filter (·.1 = .string)).map Prod.snd

/-- The contents of the string literals among tokens. -/
def stringLiterals (tokens : List Token) : List Str :=
  (tokens.filter (·.type = .string)).map Token.lexeme

theorem literalsOf_map_mark (tokens : List Token) :
    literalsOf (tokens.map Token.mark) = stringLiterals tokens := by
  induction tokens with
  | nil => rfl
  | cons token tokens ih =>
    unfold literalsOf stringLiterals at ih ⊢
    rw [List.map_cons, List.filter_cons, List.filter_cons]
    by_cases h : token.type = .string
    · simp [Token.mark, h, ih]
    · simp [Token.mark, h, ih]

@[simp] theorem literalsOf_append (marks marks' : List (TokenType × Str)) :
    literalsOf (marks ++ marks') = literalsOf marks ++ literalsOf marks' := by
  rw [literalsOf, List.filter_append, List.map_append]
  rfl

namespace Tokenizer

/-- Where the tokenizer stands: between tokens, in a name, in a number, in a string literal with
the contents read so far, or there behind a backslash. -/
inductive Place
  | outside
  | identifier
  | number
  | string (content : Str)
  | escaped (content : Str)
  deriving DecidableEq

/-- A byte that does not continue a token. -/
def start (ch : Byte) : Option (Place × List (TokenType × Str)) :=
  if isSpace ch then some (.outside, [])
  else if isIdentifierStart ch then some (.identifier, [(.identifier, [])])
  else if isDigit ch || ch == byte '-' then some (.number, [(.number, [])])
  else if ch = byte '"' then some (.string [], [])
  else (symbolType ch).map fun type => (.outside, [(type, [])])

/-- One byte. -/
def Place.step : Place → Byte → Option (Place × List (TokenType × Str))
  | .outside, ch => start ch
  | .identifier, ch => if isIdentifierPart ch then some (.identifier, []) else start ch
  | .number, ch => if isNumberPart ch then some (.number, []) else start ch
  | .string content, ch =>
    if ch = byte '"' then some (.outside, [(.string, content)])
    else if ch = byte '\\' then some (.escaped content, [])
    else some (.string (content ++ [ch]), [])
  | .escaped content, ch => some (.string (content ++ [ch]), [])

/-- The end of the text; a string literal must be closed. -/
def Place.finish : Place → Option (List (TokenType × Str))
  | .outside | .identifier | .number => some [(.end, [])]
  | .string _ | .escaped _ => none

/-- What the tokenizer emits from a place on. -/
def scan : Place → Str → Option (List (TokenType × Str)) := output Place.step Place.finish

/-- The place after a text, with what is emitted on the way. -/
def walk : Place → Str → Option (Place × List (TokenType × Str)) := run Place.step

variable {place place' place'' : Place} {ch : Byte} {text : Str}
  {marks marks' : List (TokenType × Str)}

theorem scan_cons (h : place.step ch = some (place', marks)) (text : Str) :
    scan place (ch :: text) = (scan place' text).map (marks ++ ·) := output_cons h text

theorem scan_cons_silent (h : place.step ch = some (place', [])) (text : Str) :
    scan place (ch :: text) = scan place' text := output_cons_silent h text

theorem scan_cons_congr (h : place.step ch = place'.step ch) (text : Str) :
    scan place (ch :: text) = scan place' (ch :: text) := by
  rw [scan, output, output, h]

theorem step_identifier (h : isIdentifierPart ch = true) :
    Place.step .identifier ch = some (.identifier, []) := if_pos h

theorem step_identifier_end (h : ¬ isIdentifierPart ch = true) :
    Place.step .identifier ch = Place.step .outside ch := if_neg h

theorem step_number (h : isNumberPart ch = true) :
    Place.step .number ch = some (.number, []) := if_pos h

theorem step_number_end (h : ¬ isNumberPart ch = true) :
    Place.step .number ch = Place.step .outside ch := if_neg h

theorem step_string_quote (content : Str) :
    Place.step (.string content) (byte '"') = some (.outside, [(.string, content)]) := rfl

theorem step_string_backslash (content : Str) :
    Place.step (.string content) (byte '\\') = some (.escaped content, []) := rfl

theorem step_string_other (content : Str) (hquote : ch ≠ byte '"') (hslash : ch ≠ byte '\\') :
    Place.step (.string content) ch = some (.string (content ++ [ch]), []) := by
  rw [Place.step, if_neg hquote, if_neg hslash]

theorem step_escaped (content : Str) (ch : Byte) :
    Place.step (.escaped content) ch = some (.string (content ++ [ch]), []) := rfl

/-- A byte of a name that is no byte of a number begins a name. -/
theorem start_of_isIdentifierPart : ∀ ch : Byte, isIdentifierPart ch = true →
    ¬ isNumberPart ch = true → start ch = some (.identifier, [(.identifier, [])]) := by
  decide +kernel

/-! ### The tokenizer does the same -/

theorem scan_identifier (text : Str) :
    scan .identifier text = scan .outside (text.dropWhile isIdentifierPart) := by
  induction text with
  | nil => rfl
  | cons ch text ih =>
    by_cases h : isIdentifierPart ch = true
    · rw [List.dropWhile_cons_of_pos h, ← ih]
      exact scan_cons_silent (step_identifier h) text
    · rw [List.dropWhile_cons_of_neg h]
      exact scan_cons_congr (step_identifier_end h) text

theorem scan_number (text : Str) :
    scan .number text = scan .outside (text.dropWhile isNumberPart) := by
  induction text with
  | nil => rfl
  | cons ch text ih =>
    by_cases h : isNumberPart ch = true
    · rw [List.dropWhile_cons_of_pos h, ← ih]
      exact scan_cons_silent (step_number h) text
    · rw [List.dropWhile_cons_of_neg h]
      exact scan_cons_congr (step_number_end h) text

theorem scan_string (content text : Str) :
    scan (.string content) text = (scanString text).toOption.bind fun p =>
      (scan .outside p.2).map ((.string, content ++ p.1) :: ·) := by
  fun_induction scanString text generalizing content with
  | case1 => rfl
  | case2 rest =>
    rw [scan_cons (step_string_quote content)]
    change _ = Option.map _ _
    rw [List.append_nil]
    rfl
  | case3 => rfl
  | case4 escaped rest _ ih =>
    rw [scan_cons_silent (step_string_backslash content), scan_cons_silent (step_escaped _ _), ih]
    cases scanString rest with
    | error e => rfl
    | ok p => simp [Except.toOption]
  | case5 ch rest hquote hslash ih =>
    rw [scan_cons_silent (step_string_other content hquote hslash), ih]
    cases scanString rest with
    | error e => rfl
    | ok p => simp [Except.toOption]

theorem symbolType_ne_string : ∀ ch : Byte, symbolType ch ≠ some .string := by decide +kernel

/-- A token in front of those of the rest. -/
theorem toOption_cons (token : Token) (x : Except Exception (List Token)) :
    (do let tokens ← x; return token :: tokens : Except Exception (List Token)).toOption.map
        (List.map Token.mark) = (x.toOption.map (List.map Token.mark)).map (token.mark :: ·) := by
  cases x <;> rfl

/-- **Reading byte by byte finds the tokens of the tokenizer.** -/
theorem scan_eq (text : Str) :
    scan .outside text = (tokenize text).toOption.map (List.map Token.mark) := by
  -- the tokenizer goes on behind a token, so the induction is on the length
  induction hn : text.length using Nat.strong_induction_on generalizing text with
  | _ n ih =>
    subst hn
    cases text with
    | nil => rfl
    | cons ch text =>
      have hdrop (p : Byte → Bool) : scan .outside (text.dropWhile p) =
          (tokenize (text.dropWhile p)).toOption.map (List.map Token.mark) :=
        ih _ (Nat.lt_succ_of_le (List.dropWhile_suffix p).length_le) _ rfl
      rw [tokenize_cons]
      change (start ch).bind _ = _
      unfold start
      split_ifs with hspace hname hnumber hquote
      · exact Option.map_id'.trans (ih _ (Nat.lt_succ_self _) text rfl)
      · rw [toOption_cons, ← hdrop, ← scan_identifier]
        rfl
      · rw [toOption_cons, ← hdrop, ← scan_number]
        rfl
      · change Option.map _ (scan (.string []) text) = _
        rw [scan_string]
        cases hscan : scanString text with
        | error e => rfl
        | ok p =>
          obtain ⟨value, rest⟩ := p
          have hrest := ih _ (Nat.lt_succ_of_lt (length_scanString hscan)) rest rfl
          rw [Failure.ok_bind, toOption_cons, ← hrest]
          exact Option.map_id'
      · cases htype : symbolType ch with
        | none => rfl
        | some type =>
          have hrest := ih _ (Nat.lt_succ_self _) text rfl
          have hmark : Token.mark ⟨type, [ch]⟩ = (type, []) := by
            rw [Token.mark, if_neg fun h => symbolType_ne_string ch (htype.trans (congrArg some h))]
          rw [toOption_cons, ← hrest, hmark]
          rfl

/-! ### Walks -/

theorem scan_append (h : walk place text = some (place', marks)) (rest : Str) :
    scan place (text ++ rest) = (scan place' rest).map (marks ++ ·) := output_append h rest

theorem walk_append {text' : Str} (h : walk place text = some (place', marks))
    (h' : walk place' text' = some (place'', marks')) :
    walk place (text ++ text') = some (place'', marks ++ marks') := run_append h h'

theorem walk_cons (h : place.step ch = some (place', marks))
    (h' : walk place' text = some (place'', marks')) :
    walk place (ch :: text) = some (place'', marks ++ marks') :=
  run_append (run_singleton h) h'

theorem walk_identifier (h : ∀ ch ∈ text, isIdentifierPart ch = true) :
    walk .identifier text = some (.identifier, []) := by
  induction text with
  | nil => rfl
  | cons ch text ih =>
    rw [List.forall_mem_cons] at h
    exact walk_cons (step_identifier h.1) (ih h.2)

theorem walk_number (h : ∀ ch ∈ text, isNumberPart ch = true) :
    walk .number text = some (.number, []) := by
  induction text with
  | nil => rfl
  | cons ch text ih =>
    rw [List.forall_mem_cons] at h
    exact walk_cons (step_number h.1) (ih h.2)

/-- Bytes that are neither quotes nor backslashes are read into a string literal. -/
theorem walk_string (content : Str) (h : ∀ ch ∈ text, ch ≠ byte '"' ∧ ch ≠ byte '\\') :
    walk (.string content) text = some (.string (content ++ text), []) := by
  induction text generalizing content with
  | nil => rw [List.append_nil]; rfl
  | cons ch text ih =>
    rw [List.forall_mem_cons] at h
    have hrest := ih (content ++ [ch]) h.2
    rw [List.append_assoc, List.singleton_append] at hrest
    exact walk_cons (step_string_other content h.1.1 h.1.2) hrest

/-- A string literal that is read on begins with what has been read. -/
theorem literalsOf_scan_string {content : Str} (h : scan (.string content) text = some marks) :
    ∃ more rest, literalsOf marks = (content ++ more) :: rest := by
  rw [scan_string, Option.bind_eq_some_iff] at h
  obtain ⟨⟨value, rest⟩, -, hrest⟩ := h
  rw [Option.map_eq_some_iff] at hrest
  obtain ⟨later, -, rfl⟩ := hrest
  exact ⟨value, literalsOf later, rfl⟩

/-- A number ends where a name does, or before. -/
theorem length_le_of_scan_number (h : scan .identifier text = some marks)
    (h' : scan .number text = some marks') : marks.length ≤ marks'.length := by
  induction text generalizing marks marks' with
  | nil =>
    cases h
    cases h'
    exact le_rfl
  | cons ch text ih =>
    by_cases hnumber : isNumberPart ch = true
    · -- a digit or a point continues both
      have hname : isIdentifierPart ch = true := by
        by_contra hnot
        exact absurd (not_isNumberPart_of_not_isIdentifierPart ch (by simpa using hnot))
          (by simp [hnumber])
      rw [scan_cons_silent (step_identifier hname)] at h
      rw [scan_cons_silent (step_number hnumber)] at h'
      exact ih h h'
    · by_cases hname : isIdentifierPart ch = true
      · -- a letter begins a name behind the number
        have hstart : Place.step .number ch = some (.identifier, [(.identifier, [])]) :=
          (step_number_end hnumber).trans (start_of_isIdentifierPart ch hname hnumber)
        rw [scan_cons_silent (step_identifier hname)] at h
        rw [scan_cons hstart, h] at h'
        cases h'
        exact Nat.le_succ _
      · have hsame : Place.step .identifier ch = Place.step .number ch :=
          (step_identifier_end hname).trans (step_number_end hnumber).symm
        rw [scan_cons_congr hsame, h'] at h
        cases h
        exact le_rfl

end Tokenizer

end VertexDB
