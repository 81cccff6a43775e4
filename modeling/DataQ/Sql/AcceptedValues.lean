import DataQ.Dqx.Streams
import DataQ.Foundations.Fallible
import DataQ.Sql.SnowflakeTokens

/-! # Scans for accepted values

`datasources/snowflake_dmf.py`: the expression of an accepted-values scan, which is assembled from a
column and from literals, and what Snowflake reads in it. -/

namespace DataQ.Sql.AcceptedValues
open DataQ.Dqx (isSqlIdentifier)
open DataQ.Fallible DataQ.Numerals DataQ.Sql.Snowflake
set_option autoImplicit false

inductive NonFinite
  | inf
  | negInf
  | nan
  deriving DecidableEq

/-- `repr`. -/
def NonFinite.text : NonFinite → Text
  | .inf => "inf".toList
  | .negInf => "-inf".toList
  | .nan => "nan".toList

/-- A value of a config. -/
inductive Value
  | none
  | bool (value : Bool)
  | int (value : ℤ)
  | float (value : Double)
  | nonFinite (value : NonFinite)
  | str (value : Text)
  | list (items : List Value)
  | other

inductive ScanError
  /-- `MonitorConfigError`. -/
  | monitorConfig (message : Text)
  /-- `repr` of an `int` with too many digits. -/
  | valueError

/-- What the config has under its keys, `none` where it has nothing. -/
structure Config where
  column : Value
  valueSet : Value

def maxAcceptedValues : ℕ := 500

def maxValueChars : ℕ := 1000

def echoMaxChars : ℕ := 200

/-- `sys.get_int_max_str_digits()`. -/
def maxStrDigits : ℕ := 4300

variable (repr : Value → Text)

/-- `_echo`. -/
def echo (value : Value) : Text :=
  if (repr value).length ≤ echoMaxChars then repr value
  else (repr value).take echoMaxChars ++ ['…']

/-- `_ident`. -/
def ident (name : Value) (what : Text) : Except ScanError Text :=
  let refused : Except ScanError Text := .error (.monitorConfig
    ("invalid ".toList ++ what ++ " identifier: ".toList ++ echo repr name))
  match name with
  | .str name => if isSqlIdentifier name then .ok name else refused
  | _ => refused

/-- An identifier, quoted unless it is in small letters. -/
def delimited (name : Text) : Text := if name = lower name then name else '"' :: (name ++ ['"'])

/-- `_quoted`. -/
def quoted (name : Value) (what : Text) : Except ScanError Text := do
  let name ← ident repr name what
  pure (delimited name)

def sqlLiteral : Value → Except ScanError Text
  | .bool _ => .error (.monitorConfig "each accepted value must be a number or a string".toList)
  | .none => .error (.monitorConfig "each accepted value must be a number or a string".toList)
  | .int n =>
    if maxStrDigits < (Nat.toDigits 10 n.natAbs).length then .error .valueError
    else .ok (Numeral.ofInt n).text
  | .float f => .ok f.text
  | .nonFinite f => .ok f.text
  | value =>
    match value with
    | .str s =>
      if s.length ≤ maxValueChars then
        .ok ('\'' :: (replaceAll ['\''] ['\'', '\''] (replaceAll ['\\'] ['\\', '\\'] s) ++ ['\'']))
      else tooLong
    | _ => tooLong
where
  tooLong : Except ScanError Text := .error (.monitorConfig
    "each accepted value must be a number or a string of at most 1000".toList)

/-- The bind parameters of the scan. -/
structure Binds where
  ref : Text
  arg : Text
  expr : Text

def scanStatement : Text :=
  "SELECT COUNT(*) FROM TABLE(SYSTEM$DATA_METRIC_SCAN(".toList ++
  "REF_ENTITY_NAME => :ref, METRIC_NAME => 'SNOWFLAKE.CORE.ACCEPTED_VALUES', ".toList ++
  "ARGUMENT_NAME => :arg, ARGUMENT_EXPRESSION => :expr))".toList

def buildAcceptedValuesScan (config : Config) (table : Value) (schema : Option Value) :
    Except ScanError (Text × Binds) := do
  let column ← quoted repr config.column "column".toList
  match config.valueSet with
  | .list values =>
    if 1 ≤ values.length ∧ values.length ≤ maxAcceptedValues then
      let name ← quoted repr table "table".toList
      let target ←
        match schema with
        | .none => pure name
        | some schema => do
          let schema ← quoted repr schema "schema".toList
          pure (schema ++ '.' :: name)
      let literals ← values.mapM sqlLiteral
      let expression := column ++ " IN (".toList ++ commas literals ++ [')']
      pure (scanStatement, { ref := target, arg := column, expr := expression })
    else .error (.monitorConfig "'value_set' must be a list of 1 to 500 values".toList)
  | _ => .error (.monitorConfig "'value_set' must be a list of 1 to 500 values".toList)

/-! ## What the expression should say -/

/-- A member of the test is the value. -/
def Denotes : Value → Member → Prop
  | .str s, .text content => content = s
  | .int n, .number q => q = n
  | .float f, .number q => q = f.value
  | _, _ => False

/-- A name in small letters stands bare, and Snowflake folds it as it folds any. -/
def columnOf (name : Text) : Column := if name = lower name then .bare name else .quoted name

/-- The expression is one `IN` test of the column, with the values as its members. -/
def TestsExactly (config : Config) (expression : Text) : Prop :=
  ∃ name values test, config.column = .str name ∧ config.valueSet = .list values ∧
    readExpression expression = some test ∧ test.column = columnOf name ∧
    List.Forall₂ Denotes values test.members

/-- The value of a literal, where it has one. -/
def memberOf : Value → Option Member
  | .str s => some (.text s)
  | .int n => some (.number n)
  | .float f => some (.number f.value)
  | _ => Option.none

theorem memberOf_eq_some {v : Value} {m : Member} : memberOf v = some m ↔ Denotes v m := by
  cases v <;> cases m <;> simp [memberOf, Denotes, eq_comm]

theorem mapM_memberOf_eq_some {values : List Value} {members : List Member} :
    values.mapM memberOf = some members ↔ List.Forall₂ Denotes values members := by
  induction values generalizing members with
  | nil => simp [eq_comm]
  | cons v vs ih =>
    rw [List.mapM_cons]
    constructor
    · intro h
      obtain ⟨first, hfirst, h⟩ := Option.bind_eq_some_iff.mp h
      obtain ⟨others, hothers, h⟩ := Option.bind_eq_some_iff.mp h
      obtain rfl := Option.some.inj h
      exact .cons (memberOf_eq_some.mp hfirst) (ih.mp hothers)
    · intro h
      cases h with
      | cons hfirst hothers =>
        rw [memberOf_eq_some.mpr hfirst, ih.mpr hothers]
        rfl

/-! ## The literals -/

/-- The backslashes are doubled before the quotes, which adds no backslash. -/
theorem escaped_eq (content : Text) :
    replaceAll ['\''] ['\'', '\''] (replaceAll ['\\'] ['\\', '\\'] content) = doubled content := by
  rw [replaceAll_single, replaceAll_single, List.flatMap_assoc]
  unfold doubled
  congr 1
  funext c
  by_cases hc : c = '\\'
  · subst hc
    rfl
  · simp [hc]

/-- The tokens of a literal. -/
def tokensOf : Value → List Token
  | .str s => [.string s]
  | .int n => if n < 0 then [.symbol '-', .number n.natAbs] else [.number n.natAbs]
  | .float f =>
    if f.negative = true then [.symbol '-', .number f.magnitude] else [.number f.magnitude]
  | .nonFinite .inf => [.word "inf".toList]
  | .nonFinite .negInf => [.symbol '-', .word "inf".toList]
  | .nonFinite .nan => [.word "nan".toList]
  | _ => []

/-- A literal stands before a comma or the last parenthesis. -/
def Closes (rest : Text) : Prop := ∃ c cs, rest = c :: cs ∧ (c = ',' ∨ c = ')')

theorem Closes.ends {rest : Text} (h : Closes rest) : Ends rest := by
  obtain ⟨c, cs, rfl, rfl | rfl⟩ := h
  · exact ⟨by simp, by simp, by simp, by simp⟩
  · exact ⟨by simp, by simp, by simp, by simp⟩

theorem Closes.word {rest : Text} (h : Closes rest) :
    ∀ c ∈ rest.head?, Snowflake.wordChar c = false := by
  obtain ⟨c, cs, rfl, rfl | rfl⟩ := h
  · intro d hd
    obtain rfl := Option.some.inj hd
    decide
  · intro d hd
    obtain rfl := Option.some.inj hd
    decide

theorem Closes.quote {rest : Text} (h : Closes rest) : rest.head? ≠ some '\'' := by
  obtain ⟨c, cs, rfl, rfl | rfl⟩ := h <;> simp

theorem lexes_string (content : Text) {rest : Text} {tokens : List Token} (hrest : Closes rest)
    (h : Lexes rest tokens) :
    Lexes ('\'' :: (doubled content ++ ['\'']) ++ rest) (.string content :: tokens) := by
  refine .token (by simp) ?_ h
  have htext : '\'' :: (doubled content ++ ['\'']) ++ rest =
      '\'' :: (doubled content ++ '\'' :: rest) := by simp
  rw [htext]
  exact lexOne_string content hrest.quote

theorem lexes_word {word rest : Text} {tokens : List Token} (hword : IsWord word)
    (hrest : ∀ c ∈ rest.head?, Snowflake.wordChar c = false) (h : Lexes rest tokens) :
    Lexes (word ++ rest) (.word word :: tokens) := by
  obtain ⟨c, cs, hcs, _⟩ := hword.first
  exact .token (by simp [hcs]) (lexOne_word hword hrest) h

theorem lexes_number {text rest : Text} {value : ℚ} {tokens : List Token}
    (hread : readNumeral (text ++ rest) = (value, rest))
    (hdigit : ∃ c cs, text = c :: cs ∧ c.isDigit = true) (h : Lexes rest tokens) :
    Lexes (text ++ rest) (.number value :: tokens) := by
  obtain ⟨c, cs, rfl, hc⟩ := hdigit
  exact .token (by simp) (lexOne_number hread ⟨c, cs ++ rest, rfl, hc⟩) h

theorem lexes_symbol {c : Char} (hc : c ∈ ['(', ')', ',']) {rest : Text} {tokens : List Token}
    (h : Lexes rest tokens) : Lexes (c :: rest) (.symbol c :: tokens) :=
  @Lexes.token [c] rest _ _ (by simp) (lexOne_symbol hc rest) h

theorem lexes_minus {rest : Text} {tokens : List Token} (hrest : rest.head? ≠ some '-')
    (h : Lexes rest tokens) : Lexes ('-' :: rest) (.symbol '-' :: tokens) :=
  @Lexes.token ['-'] rest _ _ (by simp) (lexOne_minus hrest) h

theorem readNumeral_natural (n : ℕ) {rest : Text} (hrest : Ends rest) :
    readNumeral (Nat.toDigits 10 n ++ rest) = ((n : ℚ), rest) := by
  have hread := readNumeral_plain (isDigit_toDigits n) hrest.digit hrest.point
    (exponent_of_ends hrest)
  rw [hread, naturalOf_toDigits, zpow_zero, mul_one]

theorem pointed_first {digits : Text} (h : ∀ c ∈ digits, c.isDigit = true) (hne : digits ≠ [])
    (place : ℤ) : ∃ c cs, Double.pointed digits place = c :: cs ∧ c.isDigit = true := by
  unfold Double.pointed
  by_cases hlow : place ≤ 0
  · rw [if_pos hlow]
    exact ⟨'0', _, rfl, rfl⟩
  · obtain ⟨c, cs, rfl⟩ := List.exists_cons_of_ne_nil hne
    have hc : c.isDigit = true := h c List.mem_cons_self
    rw [if_neg hlow]
    split
    · exact ⟨c, _, rfl, hc⟩
    · obtain ⟨k, hk⟩ : ∃ k, place.toNat = k + 1 := ⟨place.toNat - 1, by omega⟩
      rw [hk]
      exact ⟨c, _, rfl, hc⟩

theorem body_first (f : Double) : ∃ c cs, f.body = c :: cs ∧ c.isDigit = true := by
  obtain ⟨c, cs, hdigits, hc⟩ := natural_first f.digits
  unfold Double.body
  dsimp only
  split
  · exact pointed_first (isDigit_toDigits f.digits) Nat.toDigits_ne_nil _
  · rw [hdigits]
    exact ⟨c, _, rfl, hc⟩

theorem not_minus {text rest : Text} (h : ∃ c cs, text = c :: cs ∧ c.isDigit = true) :
    (text ++ rest).head? ≠ some '-' := by
  obtain ⟨c, cs, rfl, hc⟩ := h
  intro hminus
  obtain rfl := Option.some.inj hminus
  exact absurd hc (by decide)

/-- A numeral, with a sign where it is negative. -/
theorem lexes_signed {negative : Prop} [Decidable negative] {text rest : Text} {value : ℚ}
    {tokens : List Token} (hread : readNumeral (text ++ rest) = (value, rest))
    (hdigit : ∃ c cs, text = c :: cs ∧ c.isDigit = true) (h : Lexes rest tokens) :
    Lexes ((if negative then ['-'] else []) ++ text ++ rest)
      ((if negative then [.symbol '-', .number value] else [.number value]) ++ tokens) := by
  have hnumber := lexes_number hread hdigit h
  by_cases hnegative : negative
  · rw [if_pos hnegative, if_pos hnegative]
    exact lexes_minus (not_minus hdigit) hnumber
  · rw [if_neg hnegative, if_neg hnegative]
    exact hnumber

theorem wordChar_of_start {c : Char} (h : c.isAlpha = true ∨ c = '_') :
    Snowflake.wordChar c = true := by
  obtain h | rfl := h
  · simp [Snowflake.wordChar, Lexis.wordChar, h]
  · decide

theorem isWord_of_letters {c : Char} {cs : Text} (h : (c :: cs).all Char.isAlpha = true) :
    IsWord (c :: cs) := by
  have hall : ∀ d ∈ c :: cs, d.isAlpha = true := List.all_eq_true.mp h
  exact ⟨⟨c, cs, rfl, .inl (hall c List.mem_cons_self)⟩,
    fun d hd => wordChar_of_start (.inl (hall d hd))⟩

theorem isWord_inf : IsWord "inf".toList := isWord_of_letters (by decide)

theorem isWord_nan : IsWord "nan".toList := isWord_of_letters (by decide)

theorem lexes_nonFinite (x : NonFinite) {rest : Text} {tokens : List Token} (hrest : Closes rest)
    (h : Lexes rest tokens) : Lexes (x.text ++ rest) (tokensOf (.nonFinite x) ++ tokens) := by
  cases x with
  | inf => exact lexes_word isWord_inf hrest.word h
  | negInf =>
    have hfirst : ("inf".toList ++ rest).head? ≠ some '-' := fun hminus =>
      absurd (Option.some.inj hminus) (by decide)
    exact lexes_minus hfirst (lexes_word isWord_inf hrest.word h)
  | nan => exact lexes_word isWord_nan hrest.word h

/-- The text of a literal is read as the tokens of its value, and the text behind it apart. -/
theorem lexes_literal {v : Value} {literal rest : Text} {tokens : List Token}
    (hv : sqlLiteral v = .ok literal) (hrest : Closes rest) (h : Lexes rest tokens) :
    Lexes (literal ++ rest) (tokensOf v ++ tokens) := by
  cases v with
  | none => simp [sqlLiteral] at hv
  | bool b => simp [sqlLiteral] at hv
  | int n =>
    simp only [sqlLiteral] at hv
    split at hv
    · exact nomatch hv
    · obtain rfl := Except.ok.inj hv
      rw [ofInt_text]
      exact lexes_signed (readNumeral_natural _ hrest.ends) (natural_first _) h
  | float f =>
    simp only [sqlLiteral] at hv
    obtain rfl := Except.ok.inj hv
    rw [Double.text_eq]
    exact lexes_signed (f.readNumeral_body hrest.ends) (body_first f) h
  | nonFinite x =>
    simp only [sqlLiteral] at hv
    obtain rfl := Except.ok.inj hv
    exact lexes_nonFinite x hrest h
  | str s =>
    simp only [sqlLiteral, sqlLiteral.tooLong] at hv
    split at hv
    · obtain rfl := Except.ok.inj hv
      rw [escaped_eq]
      exact lexes_string s hrest h
    · exact nomatch hv
  | list items => simp [sqlLiteral, sqlLiteral.tooLong] at hv
  | other => simp [sqlLiteral, sqlLiteral.tooLong] at hv

/-! ## The members -/

/-- The tokens of the members, up to the parenthesis that ends the test. -/
def listTokens : List Value → List Token
  | [] => [.symbol ')']
  | [v] => tokensOf v ++ [.symbol ')']
  | v :: w :: vs => tokensOf v ++ .symbol ',' :: listTokens (w :: vs)

theorem lexes_commas {values : List Value} {literals : List Text}
    (h : values.mapM sqlLiteral = .ok literals) :
    Lexes (commas literals ++ [')']) (listTokens values) := by
  induction values generalizing literals with
  | nil =>
    obtain rfl := Except.ok.inj h
    exact lexes_symbol (by simp) .done
  | cons v vs ih =>
    rw [List.mapM_cons, bind_eq_ok] at h
    obtain ⟨literal, hliteral, h⟩ := h
    rw [bind_eq_ok] at h
    obtain ⟨literals', hliterals, h⟩ := h
    obtain rfl := Except.ok.inj h
    have hrec := ih hliterals
    cases vs with
    | nil =>
      obtain rfl := Except.ok.inj hliterals
      have htext : commas [literal] ++ [')'] = literal ++ [')'] := by
        simp [commas, List.intercalate]
      have hlast : Lexes [')'] [.symbol ')'] := lexes_symbol (by simp) .done
      have hread := lexes_literal hliteral ⟨')', [], rfl, .inr rfl⟩ hlast
      rw [← htext] at hread
      exact hread
    | cons w ws =>
      obtain ⟨second, others, rfl⟩ : ∃ second others, literals' = second :: others := by
        rw [List.mapM_cons, bind_eq_ok] at hliterals
        obtain ⟨second, _, hliterals⟩ := hliterals
        rw [bind_eq_ok] at hliterals
        obtain ⟨others, _, hliterals⟩ := hliterals
        exact ⟨second, others, (Except.ok.inj hliterals).symm⟩
      have htext : commas (literal :: second :: others) ++ [')'] =
          literal ++ ',' :: ' ' :: (commas (second :: others) ++ [')']) := by
        simp [commas, List.intercalate]
      rw [htext]
      exact lexes_literal hliteral ⟨',', _, rfl, .inl rfl⟩
        (lexes_symbol (by simp) (.blank hrec))

/-- A literal's tokens are a member where the value has one. -/
theorem member_tokensOf {v : Value} {literal : Text} (h : sqlLiteral v = .ok literal)
    (rest : List Token) :
    member (tokensOf v ++ rest) = (memberOf v).map fun first => (first, rest) := by
  cases v with
  | none => simp [sqlLiteral] at h
  | bool b => simp [sqlLiteral] at h
  | int n =>
    simp only [tokensOf, memberOf]
    by_cases hn : n < 0
    · have hvalue : -(n.natAbs : ℚ) = n := by
        have hcast : (n.natAbs : ℤ) = -n := by omega
        rw [← Int.cast_natCast, hcast, Int.cast_neg, neg_neg]
      rw [if_pos hn]
      have hmember : member ([.symbol '-', .number n.natAbs] ++ rest) =
          some (.number (-(n.natAbs : ℚ)), rest) := rfl
      rw [hmember, hvalue]
      rfl
    · have hvalue : (n.natAbs : ℚ) = n := by
        have hcast : (n.natAbs : ℤ) = n := by omega
        rw [← Int.cast_natCast, hcast]
      rw [if_neg hn]
      have hmember : member ([.number n.natAbs] ++ rest) =
          some (.number (n.natAbs : ℚ), rest) := rfl
      rw [hmember, hvalue]
      rfl
  | float f =>
    simp only [tokensOf, memberOf, Double.value]
    by_cases hn : f.negative = true
    · rw [if_pos hn, if_pos hn]
      rfl
    · rw [if_neg hn, if_neg hn]
      rfl
  | nonFinite x => cases x <;> rfl
  | str s => rfl
  | list items => simp [sqlLiteral, sqlLiteral.tooLong] at h
  | other => simp [sqlLiteral, sqlLiteral.tooLong] at h

theorem members_listTokens {values : List Value} (hne : values ≠ [])
    (h : ∀ v ∈ values, ∃ literal, sqlLiteral v = .ok literal) {fuel : ℕ}
    (hfuel : values.length ≤ fuel) :
    members fuel (listTokens values) = values.mapM memberOf := by
  induction values generalizing fuel with
  | nil => exact absurd rfl hne
  | cons v vs ih =>
    obtain ⟨literal, hliteral⟩ := h v List.mem_cons_self
    obtain ⟨fuel, rfl⟩ : ∃ k, fuel = k + 1 := ⟨fuel - 1, by
      rw [List.length_cons] at hfuel
      omega⟩
    rw [List.mapM_cons]
    cases vs with
    | nil =>
      rw [listTokens, members, member_tokensOf hliteral]
      cases memberOf v <;> rfl
    | cons w ws =>
      have hrec := ih (List.cons_ne_nil w ws) (fun u hu => h u (List.mem_cons_of_mem v hu))
        (Nat.le_of_succ_le_succ hfuel)
      rw [listTokens, members, member_tokensOf hliteral]
      cases memberOf v with
      | none => rfl
      | some first =>
        simp only [Option.map_some, Option.bind_some, hrec]
        cases List.mapM memberOf (w :: ws) <;> rfl

theorem length_le_listTokens {values : List Value}
    (h : ∀ v ∈ values, ∃ literal, sqlLiteral v = .ok literal) :
    values.length ≤ (listTokens values).length := by
  induction values with
  | nil => simp
  | cons v vs ih =>
    cases vs with
    | nil => simp [listTokens]
    | cons w ws =>
      have hrec := ih fun u hu => h u (List.mem_cons_of_mem v hu)
      have hcomma : (Token.symbol ',' :: listTokens (w :: ws)).length =
          (listTokens (w :: ws)).length + 1 := List.length_cons
      rw [listTokens, List.length_append, hcomma]
      rw [List.length_cons]
      omega

/-! ## The column -/

/-- The token of an identifier. -/
def columnToken (name : Text) : Token := if name = lower name then .word name else .quoted name

theorem letter_iff {c : Char} : (('A' ≤ c && c ≤ 'Z') || ('a' ≤ c && c ≤ 'z') || c = '_') = true ↔
    c.isAlpha = true ∨ c = '_' := by
  simp [isAlpha_eq, isUpper_iff, isLower_iff, Char.le_def, UInt32.le_iff_toNat_le]

theorem isWord_of_isSqlIdentifier {name : Text} (h : isSqlIdentifier name = true) :
    IsWord name := by
  cases name with
  | nil => simp [isSqlIdentifier] at h
  | cons c cs =>
    obtain ⟨hfirst, hall⟩ := Bool.and_eq_true_iff.mp h
    have hfirst := letter_iff.mp hfirst
    refine ⟨⟨c, cs, rfl, hfirst⟩, ?_⟩
    intro d hd
    obtain rfl | hd := List.mem_cons.mp hd
    · exact wordChar_of_start hfirst
    · have hother := List.all_eq_true.mp hall d hd
      rw [Bool.or_eq_true, Bool.or_eq_true] at hother
      obtain (hletter | hdigit) | hdollar := hother
      · exact wordChar_of_start (letter_iff.mp hletter)
      · have hdigit : d.isDigit = true := by
          simpa [Char.isDigit, Char.le_def] using hdigit
        simp [Snowflake.wordChar, Lexis.wordChar, hdigit]
      · obtain rfl := of_decide_eq_true hdollar
        decide

theorem lexes_column {name rest : Text} {tokens : List Token} (hname : isSqlIdentifier name = true)
    (h : Lexes (' ' :: rest) tokens) :
    Lexes (delimited name ++ ' ' :: rest) (columnToken name :: tokens) := by
  have hword := isWord_of_isSqlIdentifier hname
  unfold delimited columnToken
  by_cases hlower : name = lower name
  · rw [if_pos hlower, if_pos hlower]
    have hblank : ∀ c ∈ (' ' :: rest).head?, Snowflake.wordChar c = false := by
      intro c hc
      obtain rfl := Option.some.inj hc
      decide
    exact lexes_word hword hblank h
  · rw [if_neg hlower, if_neg hlower]
    have hquote : '"' ∉ name := fun hmem => absurd (hword.chars '"' hmem) (by decide)
    have htext : '"' :: (name ++ ['"']) ++ ' ' :: rest = '"' :: (name ++ '"' :: ' ' :: rest) := by
      simp
    refine .token (by simp) ?_ h
    rw [htext]
    exact lexOne_quoted hquote (by simp)

/-! ## The expression -/

/-- The expression is read as a test of the column whose members are the values, and as nothing
where one of the values has no literal. -/
theorem readExpression_eq {name : Text} {values : List Value} {literals : List Text}
    (hname : isSqlIdentifier name = true) (hne : values ≠ [])
    (h : values.mapM sqlLiteral = .ok literals) :
    readExpression (delimited name ++ " IN (".toList ++ commas literals ++ [')']) =
      (values.mapM memberOf).map fun members => ⟨columnOf name, members⟩ := by
  have hliterals : ∀ v ∈ values, ∃ literal, sqlLiteral v = .ok literal := by
    intro v hv
    obtain ⟨literal, _, hliteral⟩ := mapM_eq_ok_mem h hv
    exact ⟨literal, hliteral⟩
  have hin : IsWord "IN".toList := isWord_of_letters (by decide)
  have hparen : ∀ c ∈ (' ' :: '(' :: (commas literals ++ [')'])).head?,
      Snowflake.wordChar c = false := by
    intro c hc
    obtain rfl := Option.some.inj hc
    decide
  have hlex := lexes_column hname
    (.blank (lexes_word hin hparen (.blank (lexes_symbol (by simp) (lexes_commas h)))))
  have htext : delimited name ++ " IN (".toList ++ commas literals ++ [')'] =
      delimited name ++ ' ' :: ("IN".toList ++ ' ' :: '(' :: (commas literals ++ [')'])) := by
    simp
  have htest : inTest (columnToken name :: .word "IN".toList :: .symbol '(' :: listTokens values) =
      (Snowflake.column (columnToken name)).bind fun column =>
        (members (listTokens values).length (listTokens values)).map fun members =>
          { column, members } := rfl
  have hcolumn : Snowflake.column (columnToken name) = some (columnOf name) := by
    unfold columnToken columnOf
    by_cases hlower : name = lower name
    · rw [if_pos hlower, if_pos hlower]
      rfl
    · rw [if_neg hlower, if_neg hlower]
      rfl
  unfold readExpression
  rw [htext, lex_of_lexes hlex (Nat.le_refl _), Option.bind_some, htest, hcolumn,
    members_listTokens hne hliterals (length_le_listTokens hliterals)]
  rfl

theorem ident_eq_ok {repr : Value → Text} {name : Value} {what text : Text} :
    ident repr name what = .ok text ↔ name = .str text ∧ isSqlIdentifier text = true := by
  unfold ident
  cases name with
  | str name =>
    by_cases h : isSqlIdentifier name = true
    · simp only [if_pos h, Except.ok.injEq, Value.str.injEq]
      constructor
      · rintro rfl
        exact ⟨rfl, h⟩
      · exact And.left
    · simp only [if_neg h, reduceCtorEq, Value.str.injEq, false_iff, not_and]
      rintro rfl
      exact h
  | _ => simp

/-- What an accepted config consists of, and the expression made of it. -/
theorem build_eq_ok {repr : Value → Text} {config : Config} {table : Value}
    {schema : Option Value} {statement : Text} {args : Binds}
    (h : buildAcceptedValuesScan repr config table schema = .ok (statement, args)) :
    ∃ name values literals, config.column = .str name ∧ isSqlIdentifier name = true ∧
      config.valueSet = .list values ∧ values ≠ [] ∧ values.mapM sqlLiteral = .ok literals ∧
      args.expr = delimited name ++ " IN (".toList ++ commas literals ++ [')'] := by
  unfold buildAcceptedValuesScan at h
  rw [bind_eq_ok] at h
  obtain ⟨column, hcolumn, h⟩ := h
  unfold quoted at hcolumn
  rw [bind_eq_ok] at hcolumn
  obtain ⟨name, hname, hcolumn⟩ := hcolumn
  obtain ⟨hname, hident⟩ := ident_eq_ok.mp hname
  obtain rfl := Except.ok.inj hcolumn
  cases hvalues : config.valueSet with
  | list values =>
    rw [hvalues] at h
    dsimp only at h
    split at h
    · rename_i hlength
      rw [bind_eq_ok] at h
      obtain ⟨table, _, h⟩ := h
      have hne : values ≠ [] := List.ne_nil_of_length_pos hlength.1
      obtain ⟨target, literals, hliterals, h⟩ : ∃ target literals,
          values.mapM sqlLiteral = .ok literals ∧
            (scanStatement, Binds.mk target (delimited name)
              (delimited name ++ " IN (".toList ++ commas literals ++ [')'])) =
            (statement, args) := by
        cases schema with
        | none =>
          dsimp only at h
          rw [bind_eq_ok] at h
          obtain ⟨target, _, h⟩ := h
          rw [bind_eq_ok] at h
          obtain ⟨literals, hliterals, h⟩ := h
          exact ⟨target, literals, hliterals, Except.ok.inj h⟩
        | some schema =>
          dsimp only at h
          rw [bind_eq_ok] at h
          obtain ⟨schema, _, h⟩ := h
          rw [bind_eq_ok] at h
          obtain ⟨target, _, h⟩ := h
          rw [bind_eq_ok] at h
          obtain ⟨literals, hliterals, h⟩ := h
          exact ⟨target, literals, hliterals, Except.ok.inj h⟩
      obtain ⟨rfl, rfl⟩ := Prod.mk.inj h
      exact ⟨name, values, literals, hname, hident, rfl, hne, hliterals, rfl⟩
    · exact nomatch h
  | _ =>
    rw [hvalues] at h
    exact nomatch h

theorem memberOf_eq_none {v : Value} {literal : Text} (h : sqlLiteral v = .ok literal) :
    memberOf v = Option.none ↔ ∃ x, v = .nonFinite x := by
  cases v <;> simp [sqlLiteral, sqlLiteral.tooLong] at h <;> simp [memberOf]

theorem mapM_memberOf_isSome {values : List Value} :
    (∃ members, values.mapM memberOf = some members) ↔ ∀ v ∈ values, memberOf v ≠ Option.none := by
  induction values with
  | nil => simp
  | cons v vs ih =>
    rw [List.mapM_cons, List.forall_mem_cons, ← ih]
    cases memberOf v with
    | none => simp
    | some first =>
      cases List.mapM memberOf vs <;> simp

/-- The scan tests the column for exactly the values, unless one of them is an infinity or no
number: `repr` prints these as words. -/
theorem tests_exactly_iff {repr : Value → Text} {config : Config} {table : Value}
    {schema : Option Value} {statement : Text} {args : Binds}
    (h : buildAcceptedValuesScan repr config table schema = .ok (statement, args)) :
    TestsExactly config args.expr ↔
      ∀ values, config.valueSet = .list values → ∀ x, .nonFinite x ∉ values := by
  obtain ⟨name, values, literals, hcolumn, hname, hvalues, hne, hliterals, hexpr⟩ := build_eq_ok h
  have hread := readExpression_eq hname hne hliterals
  have hfinite : (∀ v ∈ values, memberOf v ≠ Option.none) ↔ ∀ x, .nonFinite x ∉ values := by
    constructor
    · intro hall x hx
      exact hall _ hx rfl
    · intro hall v hv hnone
      obtain ⟨literal, _, hliteral⟩ := mapM_eq_ok_mem hliterals hv
      obtain ⟨x, rfl⟩ := (memberOf_eq_none hliteral).mp hnone
      exact hall x hv
  rw [hexpr]
  constructor
  · rintro ⟨name', values', test, hcolumn', hvalues', htest, _, _⟩ values'' hvalues''
    obtain rfl : values = values'' := Value.list.inj (hvalues.symm.trans hvalues'')
    rw [hread] at htest
    obtain ⟨members, hmembers, _⟩ := Option.map_eq_some_iff.mp htest
    exact hfinite.mp (mapM_memberOf_isSome.mp ⟨members, hmembers⟩)
  · intro hall
    obtain ⟨members, hmembers⟩ := mapM_memberOf_isSome.mpr (hfinite.mpr (hall values hvalues))
    rw [hmembers] at hread
    exact ⟨name, values, ⟨columnOf name, members⟩, hcolumn, hvalues, hread, rfl,
      mapM_memberOf_eq_some.mp hmembers⟩

theorem tests_exactly_quotes : TestsExactly
    ⟨.str "STATUS".toList, .list [.str "it's \\".toList, .int (-5),
      .float ⟨true, 15, -1, by decide⟩]⟩
    "\"STATUS\" IN ('it''s \\\\', -5, -1.5)".toList :=
  (@tests_exactly_iff (fun _ => [])
    ⟨.str "STATUS".toList, .list [.str "it's \\".toList, .int (-5),
      .float ⟨true, 15, -1, by decide⟩]⟩
    (.str "orders".toList) Option.none scanStatement
    ⟨"orders".toList, "\"STATUS\"".toList, "\"STATUS\" IN ('it''s \\\\', -5, -1.5)".toList⟩
    rfl).mpr (by
      intro values hvalues x
      obtain rfl := Value.list.inj hvalues
      simp)

/-- An infinity stands as the word `inf`. -/
theorem infinity_is_no_literal : ∃ args,
    buildAcceptedValuesScan (fun _ => [])
        ⟨.str "status".toList, .list [.nonFinite .inf]⟩ (.str "orders".toList) Option.none =
      .ok (scanStatement, args) ∧
    args.expr = "status IN (inf)".toList ∧
    ¬ TestsExactly ⟨.str "status".toList, .list [.nonFinite .inf]⟩ args.expr := by
  refine ⟨⟨"orders".toList, "status".toList, "status IN (inf)".toList⟩, rfl, rfl, ?_⟩
  rintro ⟨name, values, test, _, _, htest, _, _⟩
  have hread : readExpression "status IN (inf)".toList = Option.none := by decide
  exact nomatch hread.symm.trans htest

end DataQ.Sql.AcceptedValues
