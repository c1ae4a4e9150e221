import VertexDB.Execution.Atomicity
import VertexDB.Execution.SqlTokens
import VertexDB.Parser.Places

/-!
# What bound parameters can do to a statement

Question marks are replaced by literals before the text is tokenized, wherever they stand.  Between
tokens this is right: a literal is a token of its own, whose type is that of the value.  Inside a
string literal it changes the literal, and a string even ends it; behind a name or a number a
nonnegative integer goes on with that token, while a negative one begins another.
`sameStructure_iff` says that nothing else can go wrong.
-/

namespace VertexDB

open Ascii Tokenizer

/-- The types that parameters are compared by. -/
inductive ParameterType
  | null
  | int
  | string
  deriving DecidableEq

/-- The value has the type. -/
def Value.OfType : Value → ParameterType → Prop
  | .null, .null => True
  | .int _, .int => True
  | .string _, .string => True
  | _, _ => False

namespace Tokenizer.Place

/-- The place behind a literal of a type.  Behind a name an integer may also go on with the name,
which makes no difference to where the text can be tokenized. -/
def after : Place → ParameterType → Place
  | .string content, _ => .string content
  | .escaped _, .string => .outside
  | .escaped content, _ => .string content
  | _, .string => .outside
  | _, .int => .number
  | _, .null => .identifier

/-- A literal of the type can stand here: not in a string literal, and an integer not directly
behind a name or a number. -/
def accepts : Place → ParameterType → Bool
  | .outside, _ => true
  | .identifier, type | .number, type => type ≠ .int
  | .string _, _ | .escaped _, _ => false

end Tokenizer.Place

/-- Every question mark of the template stands where a literal of its type can. -/
def safe : Place → Str → List ParameterType → Bool
  | _, [], _ => true
  | place, ch :: template, types =>
    if ch = byte '?' then match types with
      | [] => true
      | type :: types => place.accepts type && safe (place.after type) template types
    else match place.step ch with
      | none => true
      | some (place, _) => safe place template types

/-- Values of these types can be bound, and no byte of the template is one that no token begins with
and no string literal of it is left open. -/
def tokenizable : Place → Str → List ParameterType → Bool
  | place, [], types => place.finish.isSome && types.isEmpty
  | place, ch :: template, types =>
    if ch = byte '?' then match types with
      | [] => false
      | type :: types => tokenizable (place.after type) template types
    else match place.step ch with
      | none => false
      | some (place, _) => tokenizable place template types

/-- The string literals that a bound text should have: those of the template, as it has them, and
the strings among the parameters. -/
def boundLiterals : Place → Str → List Value → List Str
  | .string content, [], _ | .escaped content, [], _ => [content]
  | _, [], _ => []
  | .string content, ch :: template, parameters =>
    if ch = byte '"' then content :: boundLiterals .outside template parameters
    else if ch = byte '\\' then boundLiterals (.escaped content) template parameters
    else boundLiterals (.string (content ++ [ch])) template
      (if ch = byte '?' then parameters.tail else parameters)
  | .escaped content, ch :: template, parameters =>
    boundLiterals (.string (content ++ [ch])) template
      (if ch = byte '?' then parameters.tail else parameters)
  | _, ch :: template, parameters =>
    if ch = byte '?' then match parameters with
      | .string value :: parameters => value :: boundLiterals .outside template parameters
      | _ => boundLiterals .outside template parameters.tail
    else boundLiterals (if ch = byte '"' then .string [] else .outside) template parameters

namespace QueryExecutor

/-- The texts bound with two lists of parameters have the same structure: neither is tokenized, or
the types of their tokens are the same and their string literals are those of the template and the
strings among the parameters. -/
def SameStructure (s : QueryExecutor) (name template : Str) (parameters parameters' : List Value) :
    Prop :=
  ∀ text text', s.bindPreparedSql ⟨name, parameters⟩ = .ok text →
    s.bindPreparedSql ⟨name, parameters'⟩ = .ok text' →
    (∃ e e', tokenize text = .error e ∧ tokenize text' = .error e') ∨
    ∃ tokens tokens', tokenize text = .ok tokens ∧ tokenize text' = .ok tokens' ∧
      tokens.map Token.type = tokens'.map Token.type ∧
      stringLiterals tokens = boundLiterals .outside template parameters ∧
      stringLiterals tokens' = boundLiterals .outside template parameters'

end QueryExecutor

/-! ### Binding -/

theorem bindParameters_cons_eq_ok {ch : Byte} (h : ch ≠ byte '?') {template text : Str}
    {parameters : List Value} :
    QueryExecutor.bindParameters (ch :: template) parameters = .ok text ↔
      ∃ rest, QueryExecutor.bindParameters template parameters = .ok rest ∧ text = ch :: rest := by
  have hbind : QueryExecutor.bindParameters (ch :: template) parameters =
      (QueryExecutor.bindParameters template parameters >>= fun rest => pure (ch :: rest)) := by
    rw [QueryExecutor.bindParameters.eq_def]
    exact if_pos h
  rw [hbind, Failure.bind_eq_ok_iff]
  simp only [Failure.pure_eq_ok, Except.ok.injEq, eq_comm]

theorem bindParameters_question_eq_ok {template text : Str} {parameter : Value}
    {parameters : List Value} :
    QueryExecutor.bindParameters (byte '?' :: template) (parameter :: parameters) = .ok text ↔
      ∃ rest, QueryExecutor.bindParameters template parameters = .ok rest ∧
        text = sqlLiteral parameter ++ rest := by
  change (QueryExecutor.bindParameters template parameters >>= fun rest =>
    pure (sqlLiteral parameter ++ rest)) = _ ↔ _
  rw [Failure.bind_eq_ok_iff]
  simp only [Failure.pure_eq_ok, Except.ok.injEq, eq_comm]

theorem bindParameters_nil_eq_ok {parameters : List Value} {text : Str}
    (h : QueryExecutor.bindParameters [] parameters = .ok text) : parameters = [] ∧ text = [] := by
  cases parameters with
  | nil =>
    cases h
    exact ⟨rfl, rfl⟩
  | cons parameter parameters => cases h

theorem bindParameters_question_nil (template : Str) :
    ∃ e, QueryExecutor.bindParameters (byte '?' :: template) [] = .error e := ⟨_, rfl⟩

/-! ### Literals in their places -/

theorem plain_null : ∀ ch ∈ bytes "NULL", ch ≠ byte '"' ∧ ch ≠ byte '\\' := by
  decide +kernel

/-- The bytes of an integer need no escape. -/
theorem plain_of_mem_intToString {i : I64} {ch : Byte} (h : ch ∈ Value.intToString i) :
    ch ≠ byte '"' ∧ ch ≠ byte '\\' := by
  have hdigit {n : ℕ} (h : ch ∈ decimal n) : ch ≠ byte '"' ∧ ch ≠ byte '\\' := by
    constructor <;>
    · rintro rfl
      exact absurd (isDigit_of_mem_decimal h) (by decide)
  unfold Value.intToString at h
  split_ifs at h
  · rcases List.mem_cons.1 h with rfl | h
    · exact ⟨by decide, by decide⟩
    · exact hdigit h
  · exact hdigit h

theorem walk_escape (content value : Str) :
    walk (.string content) (escape value) = some (.string (content ++ value), []) := by
  induction value generalizing content with
  | nil => rw [List.append_nil]; rfl
  | cons ch value ih =>
    have hrest := ih (content ++ [ch])
    rw [List.append_assoc, List.singleton_append] at hrest
    rw [escape]
    split_ifs with h
    · exact walk_cons (step_string_backslash content) (walk_cons (step_escaped content ch) hrest)
    · obtain ⟨hquote, hslash⟩ := not_or.1 h
      exact walk_cons (step_string_other content hquote hslash) hrest

/-- A string between its quotes. -/
theorem walk_stringLiteral {place : Place} (h : place.step (byte '"') = some (.string [], []))
    (value : Str) : walk place (sqlLiteral (.string value)) = some (.outside, [(.string, value)]) :=
  walk_cons h (walk_append (walk_escape [] value)
    (Transducer.run_singleton (step_string_quote value)))

theorem step_digit : ∀ ch : Byte, (isDigit ch || ch == byte '-') = true →
    Place.step .outside ch = some (.number, [(.number, [])]) := by decide +kernel

theorem walk_decimal_number (n : ℕ) : walk .number (decimal n) = some (.number, []) :=
  walk_number fun _ hch => isNumberPart_of_isDigit (isDigit_of_mem_decimal hch)

theorem walk_decimal_identifier (n : ℕ) : walk .identifier (decimal n) = some (.identifier, []) :=
  walk_identifier fun _ hch => by simp [isIdentifierPart, isAlnum, isDigit_of_mem_decimal hch]

/-- A negative number begins a token wherever a minus sign does. -/
theorem walk_negative {place : Place} (h : place.step (byte '-') = some (.number, [(.number, [])]))
    (n : ℕ) : walk place (byte '-' :: decimal n) = some (.number, [(.number, [])]) :=
  walk_cons h (walk_decimal_number n)

theorem walk_intToString (i : I64) :
    walk .outside (Value.intToString i) = some (.number, [(.number, [])]) := by
  unfold Value.intToString
  split_ifs
  · exact walk_negative (by decide) _
  · have hdigits : ∀ ch ∈ decimal i.val.natAbs, isDigit ch = true := fun _ => isDigit_of_mem_decimal
    cases hd : decimal i.val.natAbs with
    | nil => exact absurd hd (decimal_ne_nil _)
    | cons ch text =>
      rw [hd, List.forall_mem_cons] at hdigits
      refine walk_cons (step_digit ch (by rw [hdigits.1]; rfl)) ?_
      exact walk_number fun c hc => isNumberPart_of_isDigit (hdigits.2 c hc)

/-- The string of a value. -/
def Value.literals : Value → List Str
  | .string value => [value]
  | _ => []

/-- Where a literal can stand, the types of the tokens that it begins are those of any other value
of its type. -/
theorem exists_walk_sqlLiteral {place : Place} {type : ParameterType}
    (h : place.accepts type = true) : ∃ types, ∀ value : Value, value.OfType type →
      ∃ marks, walk place (sqlLiteral value) = some (place.after type, marks) ∧
        marks.map Prod.fst = types ∧ literalsOf marks = value.literals := by
  cases type with
  | null =>
    have hwalk : ∃ marks, walk place (bytes "NULL") = some (place.after .null, marks) ∧
        literalsOf marks = [] := by
      cases place with
      | outside => exact ⟨_, rfl, rfl⟩
      | identifier => exact ⟨_, rfl, rfl⟩
      | number => exact ⟨_, rfl, rfl⟩
      | string content => cases h
      | escaped content => cases h
    obtain ⟨marks, hwalk, hliterals⟩ := hwalk
    refine ⟨marks.map Prod.fst, fun value hvalue => ?_⟩
    cases value with
    | null => exact ⟨marks, hwalk, rfl, hliterals⟩
    | _ => exact hvalue.elim
  | int =>
    refine ⟨[.number], fun value hvalue => ?_⟩
    cases value with
    | int i =>
      cases place with
      | outside => exact ⟨_, walk_intToString i, rfl, rfl⟩
      | _ => cases h
    | _ => exact hvalue.elim
  | string =>
    refine ⟨[.string], fun value hvalue => ?_⟩
    cases value with
    | string text =>
      cases place with
      | outside => exact ⟨_, walk_stringLiteral rfl text, rfl, rfl⟩
      | identifier => exact ⟨_, walk_stringLiteral rfl text, rfl, rfl⟩
      | number => exact ⟨_, walk_stringLiteral rfl text, rfl, rfl⟩
      | string content => cases h
      | escaped content => cases h
    | _ => exact hvalue.elim

/-! ### The literals of a template -/

theorem boundLiterals_identifier (template : Str) (parameters : List Value) :
    boundLiterals .identifier template parameters = boundLiterals .outside template parameters := by
  cases template <;> rfl

theorem boundLiterals_number (template : Str) (parameters : List Value) :
    boundLiterals .number template parameters = boundLiterals .outside template parameters := by
  cases template <;> rfl

theorem boundLiterals_outside_of_ne {ch : Byte} (h : ch ≠ byte '?') (template : Str)
    (parameters : List Value) : boundLiterals .outside (ch :: template) parameters =
      boundLiterals (if ch = byte '"' then .string [] else .outside) template parameters := by
  rw [boundLiterals.eq_def]
  exact if_neg h

/-- A byte that does not continue a token. -/
theorem boundLiterals_start {place : Place} {ch : Byte} {marks : List (TokenType × Str)}
    (hch : ch ≠ byte '?') (h : start ch = some (place, marks)) (template : Str)
    (parameters : List Value) : boundLiterals .outside (ch :: template) parameters =
      literalsOf marks ++ boundLiterals place template parameters := by
  rw [boundLiterals_outside_of_ne hch]
  unfold start at h
  split_ifs at h with hspace hname hnumber hquote
  · cases h
    rw [if_neg (by rintro rfl; exact absurd hspace (by decide))]
    rfl
  · cases h
    rw [if_neg (by rintro rfl; exact absurd hname (by decide)), boundLiterals_identifier]
    rfl
  · cases h
    rw [if_neg (by rintro rfl; exact absurd hnumber (by decide)), boundLiterals_number]
    rfl
  · cases h
    rw [if_pos hquote]
    rfl
  · obtain ⟨type, htype, heq⟩ := Option.map_eq_some_iff.1 h
    cases heq
    have hne : type ≠ .string := fun hs => symbolType_ne_string ch (htype.trans (congrArg some hs))
    rw [if_neg hquote, literalsOf, List.filter_cons_of_neg (by simpa using hne)]
    rfl

/-- A byte of the template. -/
theorem boundLiterals_cons {place place' : Place} {ch : Byte} {marks : List (TokenType × Str)}
    (hch : ch ≠ byte '?') (h : place.step ch = some (place', marks)) (template : Str)
    (parameters : List Value) : boundLiterals place (ch :: template) parameters =
      literalsOf marks ++ boundLiterals place' template parameters := by
  cases place with
  | outside => exact boundLiterals_start hch h template parameters
  | identifier =>
    by_cases hpart : isIdentifierPart ch = true
    · rw [step_identifier hpart] at h
      cases h
      rw [boundLiterals_identifier, boundLiterals_identifier, boundLiterals_outside_of_ne hch,
        if_neg (by rintro rfl; exact absurd hpart (by decide))]
      rfl
    · rw [step_identifier_end hpart] at h
      rw [boundLiterals_identifier]
      exact boundLiterals_start hch h template parameters
  | number =>
    by_cases hpart : isNumberPart ch = true
    · rw [step_number hpart] at h
      cases h
      rw [boundLiterals_number, boundLiterals_number, boundLiterals_outside_of_ne hch,
        if_neg (by rintro rfl; exact absurd hpart (by decide))]
      rfl
    · rw [step_number_end hpart] at h
      rw [boundLiterals_number]
      exact boundLiterals_start hch h template parameters
  | string content =>
    rw [boundLiterals.eq_def]
    simp only
    by_cases hquote : ch = byte '"'
    · subst hquote
      cases h
      rfl
    by_cases hslash : ch = byte '\\'
    · subst hslash
      cases h
      rfl
    rw [step_string_other content hquote hslash] at h
    cases h
    rw [if_neg hquote, if_neg hslash, if_neg hch]
    rfl
  | escaped content =>
    cases h
    rw [boundLiterals.eq_def]
    simp only
    rw [if_neg hch]
    rfl

/-- A question mark where a literal can stand. -/
theorem boundLiterals_question {place : Place} {type : ParameterType} {value : Value}
    (h : place.accepts type = true) (hvalue : value.OfType type) (template : Str)
    (parameters : List Value) : boundLiterals place (byte '?' :: template) (value :: parameters) =
      value.literals ++ boundLiterals (place.after type) template parameters := by
  have houtside : boundLiterals .outside (byte '?' :: template) (value :: parameters) =
      value.literals ++ boundLiterals (Place.after .outside type) template parameters := by
    rw [boundLiterals.eq_def]
    cases type with
    | null =>
      cases value with
      | null => exact (boundLiterals_identifier template parameters).symm
      | _ => exact hvalue.elim
    | int =>
      cases value with
      | int i => exact (boundLiterals_number template parameters).symm
      | _ => exact hvalue.elim
    | string =>
      cases value with
      | string text => rfl
      | _ => exact hvalue.elim
  cases place with
  | outside => exact houtside
  | identifier => rw [boundLiterals_identifier, houtside]; cases type <;> rfl
  | number => rw [boundLiterals_number, houtside]; cases type <;> rfl
  | string content => cases h
  | escaped content => cases h

/-! ### Safe templates -/

variable {place : Place} {template text text' : Str} {types : List ParameterType}
  {parameters parameters' : List Value} {marks marks' : List (TokenType × Str)}

theorem safe_cons {ch : Byte} (hch : ch ≠ byte '?') {place' : Place}
    (hstep : place.step ch = some (place', marks)) :
    safe place (ch :: template) types = safe place' template types := by
  rw [safe.eq_def]
  simp only
  rw [if_neg hch, hstep]

theorem safe_question (place : Place) (template : Str) (type : ParameterType)
    (types : List ParameterType) : safe place (byte '?' :: template) (type :: types) =
      (place.accepts type && safe (place.after type) template types) := rfl

theorem map_fst_map_append (begun : List (TokenType × Str))
    (marks : Option (List (TokenType × Str))) :
    (marks.map (begun ++ ·)).map (List.map Prod.fst) =
      (marks.map (List.map Prod.fst)).map (begun.map Prod.fst ++ ·) := by
  rw [Option.map_map, Option.map_map]
  refine congrFun (congrArg Option.map ?_) marks
  funext later
  exact List.map_append

/-- A safe template has the same token types whatever the values. -/
theorem types_eq_of_safe (hsafe : safe place template types = true)
    (h : List.Forall₂ Value.OfType parameters types)
    (h' : List.Forall₂ Value.OfType parameters' types)
    (hbind : QueryExecutor.bindParameters template parameters = .ok text)
    (hbind' : QueryExecutor.bindParameters template parameters' = .ok text') :
    (scan place text).map (List.map Prod.fst) = (scan place text').map (List.map Prod.fst) := by
  induction template generalizing place types parameters parameters' text text' with
  | nil =>
    obtain ⟨-, rfl⟩ := bindParameters_nil_eq_ok hbind
    obtain ⟨-, rfl⟩ := bindParameters_nil_eq_ok hbind'
    rfl
  | cons ch template ih =>
    by_cases hch : ch = byte '?'
    · subst hch
      cases h with
      | nil =>
        obtain ⟨e, he⟩ := bindParameters_question_nil template
        rw [he] at hbind
        cases hbind
      | @cons value type values types hvalue hvalues =>
        obtain _ | ⟨hvalue', hvalues'⟩ := h'
        obtain ⟨rest, hrest, rfl⟩ := bindParameters_question_eq_ok.1 hbind
        obtain ⟨rest', hrest', rfl⟩ := bindParameters_question_eq_ok.1 hbind'
        rw [safe_question, Bool.and_eq_true] at hsafe
        obtain ⟨begun, hbegun⟩ := exists_walk_sqlLiteral hsafe.1
        obtain ⟨m, hwalk, hm, -⟩ := hbegun _ hvalue
        obtain ⟨m', hwalk', hm', -⟩ := hbegun _ hvalue'
        have hih := ih hsafe.2 hvalues hvalues' hrest hrest'
        rw [scan_append hwalk, scan_append hwalk', map_fst_map_append, map_fst_map_append, hm, hm',
          hih]
    · obtain ⟨rest, hrest, rfl⟩ := (bindParameters_cons_eq_ok hch).1 hbind
      obtain ⟨rest', hrest', rfl⟩ := (bindParameters_cons_eq_ok hch).1 hbind'
      cases hstep : place.step ch with
      | none =>
        rw [scan, Transducer.output_cons_of_none hstep, Transducer.output_cons_of_none hstep]
      | some p =>
        obtain ⟨place', emitted⟩ := p
        rw [safe_cons hch hstep] at hsafe
        have hih := ih hsafe h h' hrest hrest'
        rw [scan_cons hstep, scan_cons hstep, map_fst_map_append, map_fst_map_append, hih]

/-- A safe template has its own string literals and those of the parameters. -/
theorem literals_eq_of_safe (hsafe : safe place template types = true)
    (h : List.Forall₂ Value.OfType parameters types)
    (hbind : QueryExecutor.bindParameters template parameters = .ok text)
    (hscan : scan place text = some marks) :
    literalsOf marks = boundLiterals place template parameters := by
  induction template generalizing place types parameters text marks with
  | nil =>
    obtain ⟨rfl, rfl⟩ := bindParameters_nil_eq_ok hbind
    cases place with
    | outside => cases hscan; rfl
    | identifier => cases hscan; rfl
    | number => cases hscan; rfl
    | string content => cases hscan
    | escaped content => cases hscan
  | cons ch template ih =>
    by_cases hch : ch = byte '?'
    · subst hch
      cases h with
      | nil =>
        obtain ⟨e, he⟩ := bindParameters_question_nil template
        rw [he] at hbind
        cases hbind
      | @cons value type values types hvalue hvalues =>
        -- the literal is read to its end, whatever comes behind it
        obtain ⟨rest, hrest, rfl⟩ := bindParameters_question_eq_ok.1 hbind
        rw [safe_question, Bool.and_eq_true] at hsafe
        obtain ⟨begun, hbegun⟩ := exists_walk_sqlLiteral hsafe.1
        obtain ⟨m, hwalk, -, hliterals⟩ := hbegun _ hvalue
        rw [scan_append hwalk, Option.map_eq_some_iff] at hscan
        obtain ⟨later, hlater, rfl⟩ := hscan
        rw [literalsOf_append, ih hsafe.2 hvalues hrest hlater, hliterals,
          boundLiterals_question hsafe.1 hvalue]
    · obtain ⟨rest, hrest, rfl⟩ := (bindParameters_cons_eq_ok hch).1 hbind
      cases hstep : place.step ch with
      | none =>
        rw [scan, Transducer.output_cons_of_none hstep] at hscan
        cases hscan
      | some p =>
        obtain ⟨place', emitted⟩ := p
        rw [safe_cons hch hstep] at hsafe
        rw [scan_cons hstep, Option.map_eq_some_iff] at hscan
        obtain ⟨later, hlater, rfl⟩ := hscan
        rw [literalsOf_append, ih hsafe h hrest hlater, boundLiterals_cons hch hstep]

/-! ### Where a text can be tokenized -/

/-- What decides where a text can be tokenized: names and numbers go on alike, and the contents of a
string literal do not matter. -/
inductive Context
  | between
  | word
  | literal
  | escape
  deriving DecidableEq

/-- The context of a place. -/
def Tokenizer.Place.context : Place → Context
  | .outside => .between
  | .identifier | .number => .word
  | .string _ => .literal
  | .escaped _ => .escape

theorem context_step_word : ∀ ch : Byte,
    (Place.step .identifier ch).map (·.1.context) = (Place.step .number ch).map (·.1.context) := by
  decide +kernel

theorem context_step {place' : Place} (h : place.context = place'.context) (ch : Byte) :
    (place.step ch).map (·.1.context) = (place'.step ch).map (·.1.context) := by
  cases place <;> cases place' <;> cases h
  · rfl
  · rfl
  · exact context_step_word ch
  · exact (context_step_word ch).symm
  · rfl
  · by_cases hquote : ch = byte '"'
    · subst hquote; rfl
    by_cases hslash : ch = byte '\\'
    · subst hslash; rfl
    rw [step_string_other _ hquote hslash, step_string_other _ hquote hslash]
    rfl
  · rfl

theorem context_after {place' : Place} (h : place.context = place'.context) (type : ParameterType) :
    (place.after type).context = (place'.after type).context := by
  cases place <;> cases place' <;> cases h <;> cases type <;> rfl

theorem tokenizable_cons {ch : Byte} (hch : ch ≠ byte '?') {place' : Place}
    (hstep : place.step ch = some (place', marks)) :
    tokenizable place (ch :: template) types = tokenizable place' template types := by
  rw [tokenizable.eq_def]
  simp only
  rw [if_neg hch, hstep]

theorem tokenizable_cons_of_none {ch : Byte} (hch : ch ≠ byte '?') (hstep : place.step ch = none) :
    tokenizable place (ch :: template) types = false := by
  rw [tokenizable.eq_def]
  simp only
  rw [if_neg hch, hstep]

theorem tokenizable_question (place : Place) (template : Str) (type : ParameterType)
    (types : List ParameterType) : tokenizable place (byte '?' :: template) (type :: types) =
      tokenizable (place.after type) template types := rfl

theorem tokenizable_congr {place' : Place} (h : place.context = place'.context) :
    tokenizable place template types = tokenizable place' template types := by
  induction template generalizing place place' types with
  | nil =>
    cases place <;> cases place' <;> cases h <;> rfl
  | cons ch template ih =>
    by_cases hch : ch = byte '?'
    · subst hch
      cases types with
      | nil => rfl
      | cons type types => exact ih (context_after h type)
    · have hsame := context_step h ch
      cases hstep : place.step ch with
      | none =>
        rw [hstep] at hsame
        have hstep' : place'.step ch = none := Option.map_eq_none_iff.1 hsame.symm
        rw [tokenizable_cons_of_none hch hstep, tokenizable_cons_of_none hch hstep']
      | some p =>
        rw [hstep] at hsame
        obtain ⟨p', hstep', hcontext⟩ := Option.map_eq_some_iff.1 hsame.symm
        rw [tokenizable_cons hch hstep, tokenizable_cons hch hstep']
        exact ih hcontext.symm

/-- The places outside string literals. -/
def openPlaces : List Place := [.outside, .identifier, .number]

theorem step_open : ∀ ch : Byte, ch ≠ byte '"' → ∀ place ∈ openPlaces,
    ((place.step ch).all fun p => p.1 ∈ openPlaces) = true := by decide +kernel

theorem step_open_quote : ∀ place ∈ openPlaces, place.step (byte '"') = some (.string [], []) := by
  decide

theorem step_open_backslash : ∀ place ∈ openPlaces, place.step (byte '\\') = none := by decide

/-- Outside string literals an escaped text is an error or ends with an opened string literal. -/
theorem walk_open_escape (hplace : place ∈ openPlaces) {value : Str} {place' : Place}
    (h : walk place (escape value ++ [byte '"']) = some (place', marks)) : place' = .string [] := by
  induction value generalizing place marks with
  | nil =>
    rw [escape, List.nil_append, walk, Transducer.run_singleton (step_open_quote place hplace)] at h
    cases h
    rfl
  | cons ch value ih =>
    rw [escape] at h
    split_ifs at h with hescape
    · rw [List.cons_append, walk, Transducer.run, step_open_backslash place hplace] at h
      cases h
    · obtain ⟨hquote, -⟩ := not_or.1 hescape
      have hopen := step_open ch hquote place hplace
      rw [List.cons_append, walk, Transducer.run, Option.bind_eq_some_iff] at h
      obtain ⟨⟨mid, first⟩, hstep, hrest⟩ := h
      obtain ⟨⟨last, later⟩, hwalk, heq⟩ := Option.map_eq_some_iff.1 hrest
      cases heq
      rw [hstep] at hopen
      exact ih (by simpa using hopen) hwalk

theorem intToString_ne_nil (i : I64) : Value.intToString i ≠ [] := by
  unfold Value.intToString
  split_ifs
  · exact List.cons_ne_nil _ _
  · exact decimal_ne_nil _

/-- A byte behind a backslash stays in the string literal, and so do bytes that need no escape. -/
theorem walk_escaped (content : Str) (hne : text ≠ [])
    (h : ∀ ch ∈ text, ch ≠ byte '"' ∧ ch ≠ byte '\\') :
    walk (.escaped content) text = some (.string (content ++ text), []) := by
  obtain ⟨ch, text, rfl⟩ := List.exists_cons_of_ne_nil hne
  have hrest := walk_string (content ++ [ch]) fun c hc => h c (List.mem_cons_of_mem _ hc)
  rw [List.append_assoc, List.singleton_append] at hrest
  exact walk_cons (step_escaped content ch) hrest

theorem walk_escaped_stringLiteral (content value : Str) :
    walk (.escaped content) (sqlLiteral (.string value)) =
      some (.outside, [(.string, content ++ byte '"' :: value)]) := by
  have hrest := walk_escape (content ++ [byte '"']) value
  rw [List.append_assoc, List.singleton_append] at hrest
  exact walk_cons (step_escaped content _)
    (walk_append hrest (Transducer.run_singleton (step_string_quote _)))

/-- An integer behind a name or a number. -/
theorem walk_word_intToString (hplace : place.context = .word) (i : I64) :
    ∃ place' marks, walk place (Value.intToString i) = some (place', marks) ∧
      place'.context = .word := by
  unfold Value.intToString
  split_ifs
  · cases place <;> cases hplace
    · exact ⟨_, _, walk_negative (by decide) _, rfl⟩
    · exact ⟨_, _, walk_negative (by decide) _, rfl⟩
  · cases place <;> cases hplace
    · exact ⟨_, _, walk_decimal_identifier _, rfl⟩
    · exact ⟨_, _, walk_decimal_number _, rfl⟩

/-- A literal leads to its context, but for a string in a string literal. -/
theorem exists_walk_context {value : Value} {type : ParameterType} (hvalue : value.OfType type)
    (h : place.context = .literal → type ≠ .string) :
    ∃ place' marks, walk place (sqlLiteral value) = some (place', marks) ∧
      place'.context = (place.after type).context := by
  by_cases haccepts : place.accepts type = true
  · obtain ⟨_, hbegun⟩ := exists_walk_sqlLiteral haccepts
    obtain ⟨marks, hwalk, -⟩ := hbegun value hvalue
    exact ⟨_, marks, hwalk, rfl⟩
  cases type with
  | null =>
    cases value with
    | null =>
      cases place with
      | string content =>
        exact ⟨_, _, walk_string content plain_null, rfl⟩
      | escaped content =>
        exact ⟨_, _, walk_escaped content (List.cons_ne_nil _ _) plain_null, rfl⟩
      | _ => exact absurd rfl haccepts
    | _ => exact hvalue.elim
  | int =>
    cases value with
    | int i =>
      cases place with
      | outside => exact absurd rfl haccepts
      | identifier => exact walk_word_intToString rfl i
      | number => exact walk_word_intToString rfl i
      | string content =>
        exact ⟨_, _, walk_string content fun _ => plain_of_mem_intToString, rfl⟩
      | escaped content =>
        exact ⟨_, _, walk_escaped content (intToString_ne_nil i)
          fun _ => plain_of_mem_intToString, rfl⟩
    | _ => exact hvalue.elim
  | string =>
    cases value with
    | string text =>
      cases place with
      | string content => exact absurd rfl (h rfl)
      | escaped content => exact ⟨_, _, walk_escaped_stringLiteral content text, rfl⟩
      | _ => exact absurd rfl haccepts
    | _ => exact hvalue.elim

/-- A literal leads to its context if to any place. -/
theorem context_walk_sqlLiteral {value : Value} {type : ParameterType} (hvalue : value.OfType type)
    {place' : Place} (h : walk place (sqlLiteral value) = some (place', marks)) :
    place'.context = (place.after type).context := by
  by_cases hstring : place.context = .literal → type ≠ .string
  · obtain ⟨place'', _, hwalk, hcontext⟩ := exists_walk_context hvalue hstring
    rw [hwalk] at h
    cases h
    exact hcontext
  · rw [Classical.not_imp, not_not] at hstring
    obtain ⟨hcontext, rfl⟩ := hstring
    cases value with
    | string value =>
      cases place <;> cases hcontext
      -- the first quote ends the literal that is being read, and the last one opens another
      rw [sqlLiteral, walk, Transducer.run_cons (step_string_quote _), Option.map_eq_some_iff] at h
      obtain ⟨⟨last, later⟩, hrest, heq⟩ := h
      cases heq
      rw [walk_open_escape (by decide) hrest]
      rfl
    | _ => exact hvalue.elim

/-- A bound text that can be tokenized shows that the template is. -/
theorem tokenizable_of_scan (h : List.Forall₂ Value.OfType parameters types)
    (hbind : QueryExecutor.bindParameters template parameters = .ok text)
    (hscan : scan place text = some marks) : tokenizable place template types = true := by
  induction template generalizing place types parameters text marks with
  | nil =>
    obtain ⟨rfl, rfl⟩ := bindParameters_nil_eq_ok hbind
    cases h
    have hfinish : place.finish = some marks := hscan
    rw [tokenizable.eq_def]
    simp [hfinish]
  | cons ch template ih =>
    by_cases hch : ch = byte '?'
    · subst hch
      cases h with
      | nil =>
        obtain ⟨e, he⟩ := bindParameters_question_nil template
        rw [he] at hbind
        cases hbind
      | @cons value type values types hvalue hvalues =>
        obtain ⟨rest, hrest, rfl⟩ := bindParameters_question_eq_ok.1 hbind
        obtain ⟨mid, first, later, hwalk, hlater⟩ := Transducer.run_of_output hscan
        rw [tokenizable_question, ← tokenizable_congr (context_walk_sqlLiteral hvalue hwalk)]
        exact ih hvalues hrest hlater
    · obtain ⟨rest, hrest, rfl⟩ := (bindParameters_cons_eq_ok hch).1 hbind
      cases hstep : place.step ch with
      | none =>
        rw [scan, Transducer.output_cons_of_none hstep] at hscan
        cases hscan
      | some p =>
        rw [scan_cons hstep, Option.map_eq_some_iff] at hscan
        obtain ⟨later, hlater, -⟩ := hscan
        rw [tokenizable_cons hch hstep]
        exact ih h hrest hlater

/-! ### Unsafe templates -/

/-- A value of the type. -/
def ParameterType.default : ParameterType → Value
  | .null => .null
  | .int => .int 0
  | .string => .string []

theorem ofType_default (type : ParameterType) : type.default.OfType type := by
  cases type <;> trivial

theorem forall₂_default (types : List ParameterType) :
    List.Forall₂ Value.OfType (types.map ParameterType.default) types :=
  List.forall₂_map_left_iff.2 (List.forall₂_same.2 fun type _ => ofType_default type)

theorem exists_walk_default (place : Place) (type : ParameterType) :
    ∃ place' marks, walk place (sqlLiteral type.default) = some (place', marks) ∧
      place'.context = (place.after type).context := by
  by_cases hstring : place.context = .literal → type ≠ .string
  · exact exists_walk_context (ofType_default type) hstring
  · rw [Classical.not_imp, not_not] at hstring
    obtain ⟨hcontext, rfl⟩ := hstring
    cases place <;> cases hcontext
    exact ⟨_, _, rfl, rfl⟩

/-- Where the template can be tokenized, the text bound with the default values is. -/
theorem exists_scan_default (h : tokenizable place template types = true) :
    ∃ text marks, QueryExecutor.bindParameters template (types.map ParameterType.default) =
      .ok text ∧
      scan place text = some marks := by
  induction template generalizing place types with
  | nil =>
    rw [tokenizable.eq_def, Bool.and_eq_true, List.isEmpty_iff] at h
    obtain ⟨hfinish, rfl⟩ := h
    obtain ⟨marks, hmarks⟩ := Option.isSome_iff_exists.1 hfinish
    exact ⟨[], marks, rfl, hmarks⟩
  | cons ch template ih =>
    by_cases hch : ch = byte '?'
    · subst hch
      cases types with
      | nil => cases h
      | cons type types =>
        obtain ⟨mid, first, hwalk, hcontext⟩ := exists_walk_default place type
        rw [tokenizable_question, ← tokenizable_congr hcontext] at h
        obtain ⟨rest, later, hrest, hlater⟩ := ih h
        refine ⟨_, first ++ later, bindParameters_question_eq_ok.2 ⟨rest, hrest, rfl⟩, ?_⟩
        rw [scan_append hwalk, hlater, Option.map_some]
    · cases hstep : place.step ch with
      | none =>
        rw [tokenizable_cons_of_none hch hstep] at h
        cases h
      | some p =>
        rw [tokenizable_cons hch hstep] at h
        obtain ⟨rest, later, hrest, hlater⟩ := ih h
        refine ⟨_, p.2 ++ later, (bindParameters_cons_eq_ok hch).2 ⟨rest, hrest, rfl⟩, ?_⟩
        rw [scan_cons hstep, hlater, Option.map_some]

theorem boundLiterals_string (content template : Str) (parameters : List Value) :
    (∃ more rest, boundLiterals (.string content) template parameters = (content ++ more) :: rest) ∧
      ∃ more rest,
        boundLiterals (.escaped content) template parameters = (content ++ more) :: rest := by
  induction template generalizing content parameters with
  | nil => exact ⟨⟨[], [], by simp [boundLiterals]⟩, ⟨[], [], by simp [boundLiterals]⟩⟩
  | cons ch template ih =>
    have hread (parameters : List Value) : ∃ more rest,
        boundLiterals (.string (content ++ [ch])) template parameters =
          (content ++ more) :: rest := by
      obtain ⟨⟨more, rest, h⟩, -⟩ := ih (content ++ [ch]) parameters
      exact ⟨ch :: more, rest, by rw [h, List.append_assoc, List.singleton_append]⟩
    constructor
    · rw [boundLiterals.eq_def]
      simp only
      split_ifs
      · exact ⟨[], _, by rw [List.append_nil]⟩
      · exact (ih content parameters).2
      · exact hread _
      · exact hread _
    · rw [boundLiterals.eq_def]
      exact hread _

/-- A question mark in a string literal should stay there. -/
theorem boundLiterals_string_question {content : Str}
    (hplace : place = .string content ∨ place = .escaped content) (template : Str)
    (parameters : List Value) : ∃ more rest,
      boundLiterals place (byte '?' :: template) parameters =
        (content ++ byte '?' :: more) :: rest := by
  obtain ⟨⟨more, rest, h⟩, -⟩ :=
    boundLiterals_string (content ++ [byte '?']) template parameters.tail
  rw [List.append_assoc, List.singleton_append] at h
  rcases hplace with rfl | rfl
  · exact ⟨more, rest, h⟩
  · exact ⟨more, rest, h⟩

/-- It does not. -/
theorem literalsOf_default {content : Str}
    (hplace : place = .string content ∨ place = .escaped content) (type : ParameterType)
    (h : scan place (sqlLiteral type.default ++ text) = some marks) :
    ∃ more rest, literalsOf marks = (content ++ more) :: rest ∧ more.head? ≠ some (byte '?') := by
  have hread {literal tail : Str} {ch : Byte} (hliteral : literal = ch :: tail)
    (hch : ch ≠ byte '?')
      (hwalk : walk place literal = some (.string (content ++ literal), []))
      (h : scan place (literal ++ text) = some marks) :
      ∃ more rest, literalsOf marks = (content ++ more) :: rest ∧ more.head? ≠ some (byte '?') := by
    rw [scan_append hwalk] at h
    obtain ⟨later, hlater, rfl⟩ := Option.map_eq_some_iff.1 h
    obtain ⟨more, rest, hliterals⟩ := literalsOf_scan_string hlater
    refine ⟨literal ++ more, rest, by rw [List.nil_append, hliterals, List.append_assoc], ?_⟩
    rw [hliteral, List.cons_append, List.head?_cons]
    exact fun heq => hch (Option.some.inj heq)
  cases type with
  | null =>
    refine hread (show bytes "NULL" = byte 'N' :: bytes "ULL" by decide +kernel) (by decide) ?_ h
    rcases hplace with rfl | rfl
    · exact walk_string content plain_null
    · exact walk_escaped content (List.cons_ne_nil _ _) plain_null
  | int =>
    have hplain : ∀ ch ∈ Value.intToString 0, ch ≠ byte '"' ∧ ch ≠ byte '\\' :=
      fun _ => plain_of_mem_intToString
    refine hread (show Value.intToString 0 = byte '0' :: [] by decide +kernel) (by decide) ?_ h
    rcases hplace with rfl | rfl
    · exact walk_string content hplain
    · exact walk_escaped content (intToString_ne_nil 0) hplain
  | string =>
    rcases hplace with rfl | rfl
    · -- the literal is ended
      have hwalk : walk (.string content) (sqlLiteral (.string [])) =
          some (.string [], [(.string, content)]) := rfl
      rw [ParameterType.default, scan_append hwalk] at h
      obtain ⟨later, -, rfl⟩ := Option.map_eq_some_iff.1 h
      exact ⟨[], literalsOf later, by rw [List.append_nil]; rfl, nofun⟩
    · rw [ParameterType.default, scan_append (walk_escaped_stringLiteral content [])] at h
      obtain ⟨later, -, rfl⟩ := Option.map_eq_some_iff.1 h
      exact ⟨[byte '"'], literalsOf later, rfl, by decide⟩

/-- Two lists of parameters whose texts differ in structure, though the first is tokenized. -/
def Breaks (place : Place) (template : Str) (types : List ParameterType) : Prop :=
  ∃ parameters parameters' text text' marks,
    List.Forall₂ Value.OfType parameters types ∧ List.Forall₂ Value.OfType parameters' types ∧
    QueryExecutor.bindParameters template parameters = .ok text ∧
    QueryExecutor.bindParameters template parameters' = .ok text' ∧
    scan place text = some marks ∧ ∀ marks', scan place text' = some marks' →
      marks.map Prod.fst = marks'.map Prod.fst →
        literalsOf marks ≠ boundLiterals place template parameters

/-- A sign behind a name or a number makes another token. -/
theorem breaks_word (hplace : place.context = .word)
    (htokenizable : tokenizable place (byte '?' :: template) (.int :: types) = true) :
    Breaks place (byte '?' :: template) (.int :: types) := by
  have hafter : place.context = (place.after .int).context := by
    cases place <;> cases hplace <;> rfl
  rw [tokenizable_question, ← tokenizable_congr hafter] at htokenizable
  obtain ⟨rest, marks, hbind, hscan⟩ := exists_scan_default htokenizable
  have hwalk : walk place (sqlLiteral (.int 0)) = some (place, []) := by
    cases place <;> cases hplace
    · exact walk_decimal_identifier 0
    · exact walk_decimal_number 0
  have hwalk' : walk place (sqlLiteral (.int ⟨-1, by decide⟩)) =
    some (.number, [(.number, [])]) := by
    cases place <;> cases hplace
    · exact walk_negative (by decide) 1
    · exact walk_negative (by decide) 1
  refine ⟨.int 0 :: types.map ParameterType.default,
    .int ⟨-1, by decide⟩ :: types.map ParameterType.default, _, _, marks,
    .cons trivial (forall₂_default types), .cons trivial (forall₂_default types),
    bindParameters_question_eq_ok.2 ⟨rest, hbind, rfl⟩,
    bindParameters_question_eq_ok.2 ⟨rest, hbind, rfl⟩, ?_, fun marks' hscan' htypes => ?_⟩
  · rw [scan_append hwalk, hscan]
    rfl
  · exfalso
    rw [scan_append hwalk'] at hscan'
    obtain ⟨later, hlater, rfl⟩ := Option.map_eq_some_iff.1 hscan'
    have hlength := congrArg List.length htypes
    rw [List.length_map, List.length_map, List.singleton_append, List.length_cons] at hlength
    have hle : marks.length ≤ later.length := by
      cases place <;> cases hplace
      · exact length_le_of_scan_number hscan hlater
      · rw [hscan] at hlater
        cases hlater
        exact le_rfl
    omega

/-- A string literal with a question mark is changed. -/
theorem breaks_string {content : Str} (hplace : place = .string content ∨ place = .escaped content)
    {type : ParameterType}
    (htokenizable : tokenizable place (byte '?' :: template) (type :: types) = true) :
    Breaks place (byte '?' :: template) (type :: types) := by
  obtain ⟨text, marks, hbind, hscan⟩ := exists_scan_default htokenizable
  refine ⟨_, _, text, text, marks, forall₂_default _, forall₂_default _, hbind, hbind, hscan,
    fun _ _ _ hsame => ?_⟩
  obtain ⟨rest, -, rfl⟩ := bindParameters_question_eq_ok.1 hbind
  obtain ⟨more, later, hliterals, hhead⟩ := literalsOf_default hplace type hscan
  obtain ⟨more', later', hbound⟩ :=
    boundLiterals_string_question hplace template ((type :: types).map ParameterType.default)
  rw [hliterals, hbound] at hsame
  have hmore := List.append_cancel_left (List.cons.inj hsame).1
  exact hhead (by rw [hmore]; rfl)

/-- An unsafe template that can be tokenized breaks. -/
theorem breaks_of_not_safe (htokenizable : tokenizable place template types = true)
    (hsafe : safe place template types = false) : Breaks place template types := by
  induction template generalizing place types with
  | nil => cases hsafe
  | cons ch template ih =>
    by_cases hch : ch = byte '?'
    · subst hch
      cases types with
      | nil => cases hsafe
      | cons type types =>
        by_cases haccepts : place.accepts type = true
        · -- this question mark is harmless, so the break is behind it
          rw [tokenizable_question] at htokenizable
          rw [safe_question, haccepts, Bool.true_and] at hsafe
          obtain ⟨values, values', rest, rest', marks, h, h', hbind, hbind', hscan, hbreaks⟩ :=
            ih htokenizable hsafe
          have hdefault := ofType_default type
          obtain ⟨_, hbegun⟩ := exists_walk_sqlLiteral haccepts
          obtain ⟨begun, hwalk, -, hliterals⟩ := hbegun _ hdefault
          refine ⟨type.default :: values, type.default :: values', _, _, begun ++ marks,
            .cons hdefault h, .cons hdefault h',
            bindParameters_question_eq_ok.2 ⟨rest, hbind, rfl⟩,
            bindParameters_question_eq_ok.2 ⟨rest', hbind', rfl⟩, ?_,
              fun marks' hscan' htypes => ?_⟩
          · rw [scan_append hwalk, hscan]
            rfl
          · rw [scan_append hwalk] at hscan'
            obtain ⟨later, hlater, rfl⟩ := Option.map_eq_some_iff.1 hscan'
            rw [List.map_append, List.map_append] at htypes
            rw [literalsOf_append, boundLiterals_question haccepts hdefault, hliterals]
            exact fun hsame => hbreaks later hlater (List.append_cancel_left htypes)
              (List.append_cancel_left hsame)
        · cases place with
          | outside => exact absurd rfl haccepts
          | identifier =>
            obtain rfl : type = .int := by simpa [Place.accepts] using haccepts
            exact breaks_word rfl htokenizable
          | number =>
            obtain rfl : type = .int := by simpa [Place.accepts] using haccepts
            exact breaks_word rfl htokenizable
          | string content => exact breaks_string (.inl rfl) htokenizable
          | escaped content => exact breaks_string (.inr rfl) htokenizable
    · cases hstep : place.step ch with
      | none =>
        rw [tokenizable_cons_of_none hch hstep] at htokenizable
        cases htokenizable
      | some p =>
        obtain ⟨place', emitted⟩ := p
        rw [tokenizable_cons hch hstep] at htokenizable
        rw [safe_cons hch hstep] at hsafe
        obtain ⟨values, values', rest, rest', marks, h, h', hbind, hbind', hscan, hbreaks⟩ :=
          ih htokenizable hsafe
        refine ⟨values, values', _, _, emitted ++ marks, h, h',
          (bindParameters_cons_eq_ok hch).2 ⟨rest, hbind, rfl⟩,
          (bindParameters_cons_eq_ok hch).2 ⟨rest', hbind', rfl⟩, ?_,
            fun marks' hscan' htypes => ?_⟩
        · rw [scan_cons hstep, hscan]
          rfl
        · rw [scan_cons hstep] at hscan'
          obtain ⟨later, hlater, rfl⟩ := Option.map_eq_some_iff.1 hscan'
          rw [List.map_append, List.map_append] at htypes
          rw [literalsOf_append, boundLiterals_cons hch hstep]
          exact fun hsame => hbreaks later hlater (List.append_cancel_left htypes)
            (List.append_cancel_left hsame)

/-! ### The theorem -/

theorem scan_of_tokenize {tokens : List Token} (h : tokenize text = .ok tokens) :
    scan .outside text = some (tokens.map Token.mark) := by
  rw [scan_eq, h]
  rfl

theorem tokenize_of_scan (h : scan .outside text = some marks) :
    ∃ tokens, tokenize text = .ok tokens ∧ tokens.map Token.mark = marks := by
  rw [scan_eq] at h
  cases htokens : tokenize text with
  | error e =>
    rw [htokens] at h
    cases h
  | ok tokens =>
    rw [htokens] at h
    exact ⟨tokens, rfl, Option.some.inj h⟩

theorem tokenize_error_of_scan (h : scan .outside text = none) : ∃ e, tokenize text = .error e := by
  cases htokens : tokenize text with
  | error e => exact ⟨e, rfl⟩
  | ok tokens =>
    rw [scan_of_tokenize htokens] at h
    cases h

theorem map_fst_mark (tokens : List Token) :
    (tokens.map Token.mark).map Prod.fst = tokens.map Token.type := by
  rw [List.map_map]
  rfl

namespace QueryExecutor

variable {s : QueryExecutor} {name : Str}

theorem bindPreparedSql_eq (hprepared : s.preparedStatements.find? name = some template)
    (parameters : List Value) :
    s.bindPreparedSql ⟨name, parameters⟩ = bindParameters template parameters := by
  rw [bindPreparedSql, hprepared]

/-- **Parameters cannot change the structure of a statement whose template is safe, and of no
other**: where the template can be tokenized at all, every question mark has to stand outside string
literals, and one for an integer not directly behind a name or a number. -/
theorem sameStructure_iff (hprepared : s.preparedStatements.find? name = some template)
    (types : List ParameterType) :
    (∀ parameters parameters', List.Forall₂ Value.OfType parameters types →
        List.Forall₂ Value.OfType parameters' types →
        SameStructure s name template parameters parameters') ↔
      (tokenizable .outside template types = true → safe .outside template types = true) := by
  constructor
  · intro hall htokenizable
    -- two lists of values that break an unsafe template
    by_contra hunsafe
    obtain ⟨values, values', text, text', marks, h, h', hbind, hbind', hscan, hbreaks⟩ :=
      breaks_of_not_safe htokenizable (Bool.eq_false_iff.2 hunsafe)
    rw [← bindPreparedSql_eq hprepared] at hbind hbind'
    obtain ⟨tokens, htokens, rfl⟩ := tokenize_of_scan hscan
    rcases hall values values' h h' text text' hbind hbind' with
      ⟨e, -, he, -⟩ | ⟨found, tokens', hfound, htokens', htypes, hliterals, -⟩
    · rw [he] at htokens
      cases htokens
    · rw [hfound] at htokens
      cases htokens
      refine hbreaks _ (scan_of_tokenize htokens') ?_ ?_
      · rw [map_fst_mark, map_fst_mark, htypes]
      · rw [literalsOf_map_mark, hliterals]
  · intro hsafe values values' h h' text text' hbind hbind'
    rw [bindPreparedSql_eq hprepared] at hbind hbind'
    by_cases htokenizable : tokenizable .outside template types = true
    · have htypes := types_eq_of_safe (hsafe htokenizable) h h' hbind hbind'
      cases hscan : scan .outside text with
      | none =>
        rw [hscan] at htypes
        obtain ⟨e, he⟩ := tokenize_error_of_scan hscan
        obtain ⟨e', he'⟩ := tokenize_error_of_scan (Option.map_eq_none_iff.1 htypes.symm)
        exact .inl ⟨e, e', he, he'⟩
      | some marks =>
        rw [hscan] at htypes
        obtain ⟨marks', hscan', hmarks⟩ := Option.map_eq_some_iff.1 htypes.symm
        obtain ⟨tokens, htokens, rfl⟩ := tokenize_of_scan hscan
        obtain ⟨tokens', htokens', rfl⟩ := tokenize_of_scan hscan'
        rw [map_fst_mark, map_fst_mark] at hmarks
        refine .inr ⟨tokens, tokens', htokens, htokens', hmarks.symm, ?_, ?_⟩
        · rw [← literalsOf_map_mark]
          exact literals_eq_of_safe (hsafe htokenizable) h hbind hscan
        · rw [← literalsOf_map_mark]
          exact literals_eq_of_safe (hsafe htokenizable) h' hbind' hscan'
    · -- the text is not tokenized, whatever the values
      have hnone {values : List Value} {text : Str} (h : List.Forall₂ Value.OfType values types)
          (hbind : bindParameters template values = .ok text) : ∃ e, tokenize text = .error e := by
        refine tokenize_error_of_scan (Option.eq_none_iff_forall_ne_some.2 fun marks hscan => ?_)
        exact htokenizable (tokenizable_of_scan h hbind hscan)
      obtain ⟨e, he⟩ := hnone h hbind
      obtain ⟨e', he'⟩ := hnone h' hbind'
      exact .inl ⟨e, e', he, he'⟩

/-- `PREPARE q AS "UPDATE t SET a = ? WHERE b = ?;";`. -/
def preparedUpdate : QueryExecutor := runSql (.byInsertion true)
  ["PREPARE q AS \"UPDATE t SET a = ? WHERE b = ?;\";"] (start (.byInsertion true) .empty)

theorem sameStructure_iff_preparedUpdate :
    preparedUpdate.preparedStatements.find? (bytes "q") =
        some (bytes "UPDATE t SET a = ? WHERE b = ?;") ∧
      SameStructure preparedUpdate (bytes "q") (bytes "UPDATE t SET a = ? WHERE b = ?;")
        [.int 1, .string (bytes "x")] [.int 2, .string (bytes "\" OR \"")] := by
  have hprepared : preparedUpdate.preparedStatements.find? (bytes "q") =
      some (bytes "UPDATE t SET a = ? WHERE b = ?;") := by decide +kernel
  refine ⟨hprepared,
    (sameStructure_iff hprepared [.int, .string]).2 (fun _ => by decide +kernel) _ _ ?_ ?_⟩
  · exact .cons trivial (.cons trivial .nil)
  · exact .cons trivial (.cons trivial .nil)

/-- `PREPARE q AS "SELECT * FROM t WHERE a = \"?\";";`. -/
def preparedQuoted : QueryExecutor := runSql (.byInsertion true)
  ["PREPARE q AS \"SELECT * FROM t WHERE a = \\\"?\\\";\";"] (start (.byInsertion true) .empty)

/-- A string that is bound inside a string literal ends it and goes on with the statement. -/
theorem not_sameStructure_preparedQuoted :
    Reachable (.byInsertion true) preparedQuoted ∧
      preparedQuoted.preparedStatements.find? (bytes "q") =
        some (bytes "SELECT * FROM t WHERE a = \"?\";") ∧
      ¬ SameStructure preparedQuoted (bytes "q") (bytes "SELECT * FROM t WHERE a = \"?\";")
        [.string []] [.string (bytes " OR b = ")] := by
  refine ⟨Reachable.start.runSql _, by decide +kernel, fun hsame => ?_⟩
  have htext : preparedQuoted.bindPreparedSql ⟨bytes "q", [.string []]⟩ =
      .ok (bytes "SELECT * FROM t WHERE a = \"\"\"\";") := by decide +kernel
  have htext' : preparedQuoted.bindPreparedSql ⟨bytes "q", [.string (bytes " OR b = ")]⟩ =
      .ok (bytes "SELECT * FROM t WHERE a = \"\" OR b = \"\";") := by decide +kernel
  have hcount : (tokenize (bytes "SELECT * FROM t WHERE a = \"\"\"\";")).toOption.map List.length ≠
      (tokenize (bytes "SELECT * FROM t WHERE a = \"\" OR b = \"\";")).toOption.map
        List.length := by
    decide +kernel
  rcases hsame _ _ htext htext' with ⟨e, e', he, he'⟩ |
    ⟨tokens, tokens', htokens, htokens', htypes, -⟩
  · rw [he, he'] at hcount
    exact hcount rfl
  · rw [htokens, htokens'] at hcount
    refine hcount (congrArg some ?_)
    have := congrArg List.length htypes
    rwa [List.length_map, List.length_map] at this

end QueryExecutor

end VertexDB
