import VertexDB.Execution.Replay

/-!
# Literals in the log

A literal that the executor writes replays to the value it was written for: always for NULL,
integers and strings, and for a double exactly when it is nearest to a short decimal.  The text of
any other double is that of an integer, of another double, or has an exponent, which the tokenizer
does not know.
-/

namespace VertexDB

open Ascii Tokenizer

/-- The literal of the value is one token, and the parser reads the value back. -/
def LiteralReplays (value : Value) : Prop :=
  ∃ token, tokenize (sqlLiteral value) = .ok [token, ⟨.end, []⟩] ∧
    Parser.parseValue [token, ⟨.end, []⟩] = .ok (value, [⟨.end, []⟩])

/-- A double that is neither infinite nor NaN, or a value of another type. -/
def Value.Finite : Value → Prop
  | .double value => value.isFinite = true
  | _ => True

theorem literalReplays_of_printable {value : Value} (h : value.Printable) :
    LiteralReplays value :=
  ⟨valueToken value, (lexes_sqlLiteral h).tokenize_eq, Parser.reads_parseValue h [⟨.end, []⟩]⟩

/-- A number with an exponent has more than one token: the exponent is read as a name. -/
theorem tokenize_exponent (negative : Bool) {text mantissa rest : Str} {sign : Byte}
    (h : Binary64.ExponentText text mantissa rest sign) (token : Token) :
    tokenize (Binary64.signText negative ++ text) ≠ .ok [token, ⟨.end, []⟩] := by
  have hparts : ∀ c ∈ mantissa, isNumberPart c = true := by
    intro c hc
    rcases h.parts c hc with hdigit | rfl
    · exact isNumberPart_of_isDigit hdigit
    · decide
  obtain ⟨b, bs, rfl⟩ := List.exists_cons_of_ne_nil h.ne_nil
  -- the number ends before the `e`, which starts a name of one letter
  obtain ⟨ch, tail, hsplit, hch, htail⟩ : ∃ ch tail, Binary64.signText negative ++ b :: bs =
      ch :: tail ∧ (isDigit ch || ch == byte '-') = true ∧ ∀ c ∈ tail, isNumberPart c = true := by
    cases negative with
    | false =>
      refine ⟨b, bs, rfl, ?_, fun c hc => hparts c (List.mem_cons_of_mem _ hc)⟩
      rw [h.head b rfl, Bool.true_or]
    | true => exact ⟨byte '-', b :: bs, rfl, by decide, hparts⟩
  have hstops : Stops (sign :: rest) := by
    refine stops_cons ?_ rest
    rcases h.sign_eq with rfl | rfl <;> decide
  have hname : IsIdentifier [byte 'e'] := by decide +kernel
  have hexponent := lexes_identifier hname (sign :: rest) hstops
  have hrest : ∀ c, ([byte 'e'] ++ sign :: rest).head? = some c → isNumberPart c = false := by
    rintro c ⟨⟩
    decide
  have htext : Binary64.signText negative ++ text = ch :: tail ++ ([byte 'e'] ++ sign :: rest) := by
    rw [h.text_eq, ← hsplit, List.append_assoc]
    rfl
  rw [htext, tokenize_number hch htail hrest, hexponent, before_before]
  cases tokenize (sign :: rest) with
  | error e => exact nofun
  | ok found =>
    intro heq
    have hcons := Except.ok.inj heq
    simp only [List.cons_append, List.nil_append, List.cons.injEq] at hcons
    exact absurd (congrArg Token.type hcons.2.1) (by decide)

/-- A double whose literal replays is nearest to a short decimal. -/
theorem shortDecimal_of_literalReplays {d : Binary64} (hfin : d.isFinite = true)
    (h : LiteralReplays (.double d)) : d.ShortDecimal := by
  obtain ⟨token, htokens, hvalue⟩ := h
  replace htokens : tokenize d.printG = .ok [token, ⟨.end, []⟩] := htokens
  rcases Binary64.printG_cases hfin with ⟨ds, hne, hdigits, hprint⟩ |
    ⟨text, whole, frac, hprint, htext, hshort⟩ | ⟨text, mantissa, rest, sign, hprint, htext⟩
  · obtain ⟨ch, tail, rfl⟩ := List.exists_cons_of_ne_nil hne
    have hlexes := lexes_signed d.isNegative (hdigits ch List.mem_cons_self) fun c hc =>
      isNumberPart_of_isDigit (hdigits c (List.mem_cons_of_mem _ hc))
    rw [hprint, hlexes.tokenize_eq] at htokens
    cases htokens
    have hdot : byte '.' ∉ Binary64.signText d.isNegative ++ ch :: tail := by
      intro hmem
      rcases List.mem_append.1 hmem with hmem | hmem
      · unfold Binary64.signText at hmem
        split_ifs at hmem
        · exact absurd (List.mem_singleton.1 hmem) (by decide)
        · cases hmem
      · exact absurd (hdigits _ hmem) (by decide)
    -- without a point it is read back as an integer
    rw [Parser.parseValue_number, if_neg hdot] at hvalue
    cases hint : parseInt (Binary64.signText d.isNegative ++ ch :: tail) with
    | error e => rw [hint] at hvalue; cases hvalue
    | ok i => rw [hint] at hvalue; cases hvalue
  · have hlexes := lexes_pointText d.isNegative htext
    obtain ⟨n, hn, hscan⟩ := htext.scanDecimal_eq d.isNegative
    have hdot : byte '.' ∈ Binary64.signText d.isNegative ++ text := by
      rw [htext.text_eq]
      simp
    rw [hprint, hlexes.tokenize_eq] at htokens
    cases htokens
    rw [Parser.parseValue_number, if_pos hdot, stod, hscan] at hvalue
    simp only [hn, if_false] at hvalue
    cases hnearest : Binary64.nearest? d.isNegative (Binary64.decimalValue whole frac) with
    | none => rw [hnearest] at hvalue; cases hvalue
    | some d' =>
      rw [hnearest] at hvalue
      cases hvalue
      exact hshort hnearest
  · rw [hprint] at htokens
    exact absurd htokens (tokenize_exponent d.isNegative htext token)

/-- Commands that write rows. -/
def Change.Writes : Change → Prop
  | .insert _ | .update _ => True
  | _ => False

/-- **A literal replays to the value it was written for** exactly when the value is not a double,
or is the double nearest to a short decimal.  The records of an INSERT or UPDATE with such values
then replay to the effect that the statement had. -/
theorem literalReplays_iff (platform : Platform) :
    (∀ value : Value, value.Finite → (LiteralReplays value ↔ value.Printable)) ∧
    ∀ change : Change, change.Writes → change.Printable → ∀ database effect records,
      Reference.step change database = .ok effect →
      records.map (fun record : WalRecord => (record.operation, record.payload)) = change.records →
      QueryExecutor.Replays platform records database effect.database := by
  refine ⟨fun value hfin => ⟨fun h => ?_, literalReplays_of_printable⟩, ?_⟩
  · cases value with
    | double d => exact shortDecimal_of_literalReplays hfin h
    | _ => trivial
  · intro change _ hprintable database effect records hstep hrecords
    exact QueryExecutor.replays_change hprintable hstep hrecords

/-- The double `0.5`. -/
def half : Binary64 := ⟨0x3FE0000000000000⟩

/-- The double `5`. -/
def five : Binary64 := ⟨0x4014000000000000⟩

theorem shortDecimal_half : half.ShortDecimal :=
  ⟨5, 1, by decide, by decide, by decide, by decide +kernel⟩

/-- A database with a table of doubles. -/
def doubles : DatabaseView :=
  ⟨bytes "d", SortedMap.empty.insert (bytes "t") ⟨[⟨bytes "a", .double, false⟩], [], .empty⟩⟩

/-- The record of `INSERT INTO t VALUES (0.5);`. -/
def halfRecord : WalRecord := ⟨1, .insert, bytes "INSERT INTO t VALUES (0.5);"⟩

theorem literalReplays_iff_half : LiteralReplays (.double half) ∧ ∃ effect,
    Reference.step (.insert ⟨bytes "t", [[.double half]]⟩) (some doubles) = .ok effect ∧
      QueryExecutor.Replays (.byInsertion true) [halfRecord] (some doubles) effect.database := by
  obtain ⟨hvalue, hrecords⟩ := literalReplays_iff (.byInsertion true)
  refine ⟨(hvalue (.double half) (show half.isFinite = true by decide)).2 shortDecimal_half,
    ?_⟩
  have hfind : doubles.tables.find? (bytes "t") =
      some ⟨[⟨bytes "a", .double, false⟩], [], .empty⟩ := by
    decide
  obtain ⟨effect, hstep, -⟩ := QueryExecutor.step_insert hfind
    (List.forall_mem_singleton.2 (show validateRow _ [.double half] = .ok () by decide))
  refine ⟨effect, hstep,
    hrecords (.insert ⟨bytes "t", [[.double half]]⟩) trivial ?_ _ _ _ hstep (by decide +kernel)⟩
  exact List.forall_mem_singleton.2 ⟨by decide +kernel, by simp,
    List.forall_mem_singleton.2 shortDecimal_half⟩

/-- The literal of the double `5` is that of the integer. -/
theorem not_literalReplays_five : (Value.double five).Finite ∧ ¬ LiteralReplays (.double five) := by
  refine ⟨show five.isFinite = true by decide, ?_⟩
  rintro ⟨token, htokens, hvalue⟩
  have hfive : tokenize (sqlLiteral (.double five)) = .ok [⟨.number, bytes "5"⟩, ⟨.end, []⟩] := by
    decide +kernel
  rw [hfive] at htokens
  cases htokens
  have hint : Parser.parseValue [⟨.number, bytes "5"⟩, ⟨.end, []⟩] =
      .ok (.int ⟨5, by decide⟩, [⟨.end, []⟩]) := by decide
  rw [hint] at hvalue
  cases hvalue

end VertexDB
