import DataQ.Foundations.Numerals
import DataQ.Sql.Engines

/-! # Snowflake's tokens

How Snowflake reads an expression: its tokens with the values of their literals, and the `IN` test
that they make up. -/

namespace DataQ.Sql.Snowflake
open DataQ.Numerals
set_option autoImplicit false

inductive Token
  | word (text : Text)
  | quoted (name : Text)
  | string (content : Text)
  | number (value : ℚ)
  | symbol (c : Char)
  deriving DecidableEq

def hexValue (c : Char) : Option ℕ :=
  if c.isDigit then some (c.toNat - 48)
  else if 'a' ≤ c.toLower ∧ c.toLower ≤ 'f' then some (c.toLower.toNat - 87)
  else none

/-- The character that so many digits of a base stand for, and what follows them. -/
def codeOf (base : ℕ) (digit : Char → Option ℕ) (count : ℕ) (text : Text) : Option (Char × Text) :=
  if text.length < count then none
  else
    ((text.take count).mapM digit).map fun digits =>
      (Char.ofNat (digits.foldl (fun value d => base * value + d) 0), text.drop count)

/-- What a backslash and the text after it stand for, and what follows. -/
def escape : Text → Option (Char × Text)
  | [] => none
  | 'b' :: rest => some (Char.ofNat 8, rest)
  | 'f' :: rest => some (Char.ofNat 12, rest)
  | 'n' :: rest => some ('\n', rest)
  | 'r' :: rest => some ('\r', rest)
  | 't' :: rest => some ('\t', rest)
  | 'x' :: rest => (codeOf 16 hexValue 2 rest).or (some ('x', rest))
  | 'u' :: rest => (codeOf 16 hexValue 4 rest).or (some ('u', rest))
  | c :: rest =>
    (codeOf 8 octal 3 (c :: rest)).or (some (if c = '0' then Char.ofNat 0 else c, rest))
where
  octal (c : Char) : Option ℕ := if '0' ≤ c ∧ c ≤ '7' then some (c.toNat - 48) else none

/-- The rest of a string literal: what it stands for, and what follows it. -/
def stringBody : ℕ → Text → Option (Text × Text)
  | 0, _ => none
  | _ + 1, [] => none
  | fuel + 1, c :: cs =>
    if c = '\\' then
      (escape cs).bind fun (escaped, rest) =>
        (stringBody fuel rest).map fun (content, rest) => (escaped :: content, rest)
    else if c = '\'' then
      if cs.head? = some '\'' then
        (stringBody fuel cs.tail).map fun (content, rest) => ('\'' :: content, rest)
      else some ([], cs)
    else (stringBody fuel cs).map fun (content, rest) => (c :: content, rest)

/-- The rest of a delimited identifier. -/
def quotedBody : ℕ → Text → Option (Text × Text)
  | 0, _ => none
  | _ + 1, [] => none
  | fuel + 1, c :: cs =>
    if c = '"' then
      if cs.head? = some '"' then
        (quotedBody fuel cs.tail).map fun (name, rest) => ('"' :: name, rest)
      else some ([], cs)
    else (quotedBody fuel cs).map fun (name, rest) => (c :: name, rest)

/-- The rest of a string between `$$` and `$$`. -/
def dollarBody : Text → Option (Text × Text)
  | [] => none
  | c :: cs =>
    if c = '$' ∧ cs.head? = some '$' then some ([], cs.tail)
    else (dollarBody cs).map fun (content, rest) => (c :: content, rest)

def wordChar (c : Char) : Bool := (engine .snowflake).wordChar c

/-- The first token of a text, where it does not begin with a blank or a comment, and the rest. -/
def lexOne : Text → Option (Option Token × Text)
  | [] => none
  | c :: cs =>
    if c.isWhitespace then some (none, cs)
    else if (engine .snowflake).startsLine (c :: cs) then
      some (none, lineRest (engine .snowflake) cs)
    else if (engine .snowflake).startsBlock (c :: cs) then
      (closeAt ['*', '/'] false cs.tail).map fun rest => (none, rest)
    else if c = '\'' then
      (stringBody (cs.length + 1) cs).map fun (content, rest) => (some (.string content), rest)
    else if c = '"' then
      (quotedBody (cs.length + 1) cs).map fun (name, rest) => (some (.quoted name), rest)
    else if c = '$' ∧ cs.head? = some '$' then
      (dollarBody cs.tail).map fun (content, rest) => (some (.string content), rest)
    else if c.isDigit ∨ c = '.' ∧ cs.head?.any Char.isDigit then
      let (value, rest) := readNumeral (c :: cs)
      some (some (.number value), rest)
    else if wordChar c then
      some (some (.word (c :: cs.takeWhile wordChar)), cs.dropWhile wordChar)
    else some (some (.symbol c), cs)

/-- All tokens of a text; `none` where one of them has no end. -/
def lex : ℕ → Text → Option (List Token)
  | _, [] => some []
  | 0, _ => none
  | fuel + 1, text =>
    match lexOne text with
    | none => none
    | some (none, rest) => lex fuel rest
    | some (some token, rest) => (lex fuel rest).map fun tokens => token :: tokens

/-! ## The test -/

inductive Column
  | bare (name : Text)
  | quoted (name : Text)
  deriving DecidableEq

inductive Member
  | text (content : Text)
  | number (value : ℚ)
  deriving DecidableEq

/-- `column IN (member, …)`. -/
structure InTest where
  column : Column
  members : List Member
  deriving DecidableEq

/-- A literal, a number with its sign, and the tokens after it. -/
def member : List Token → Option (Member × List Token)
  | .string content :: rest => some (.text content, rest)
  | .number value :: rest => some (.number value, rest)
  | .symbol '-' :: .number value :: rest => some (.number (-value), rest)
  | .symbol '+' :: .number value :: rest => some (.number value, rest)
  | _ => none

/-- The members up to the parenthesis that ends the test. -/
def members : ℕ → List Token → Option (List Member)
  | 0, _ => none
  | fuel + 1, tokens =>
    (member tokens).bind fun (first, rest) =>
      match rest with
      | .symbol ',' :: rest => (members fuel rest).map fun others => first :: others
      | [.symbol ')'] => some [first]
      | _ => none

def column : Token → Option Column
  | .word name => some (.bare name)
  | .quoted name => some (.quoted name)
  | _ => none

/-- The test that the tokens are, where there is nothing else. -/
def inTest : List Token → Option InTest
  | first :: .word operator :: .symbol '(' :: rest =>
    if lower operator = "in".toList then
      (column first).bind fun column =>
        (members rest.length rest).map fun members => { column, members }
    else none
  | _ => none

def readExpression (text : Text) : Option InTest := (lex text.length text).bind inTest

end DataQ.Sql.Snowflake

/-! # Reading Snowflake's tokens

A text that is laid out token by token is lexed as these tokens: words, delimited identifiers,
string literals with their quotes and backslashes doubled, and numerals. -/

namespace DataQ.Sql.Snowflake
open DataQ.Numerals
set_option autoImplicit false

/-- A text in pieces, each the first token of what is left. -/
inductive Lexes : Text → List Token → Prop
  | done : Lexes [] []
  | blank {rest : Text} {tokens : List Token} (h : Lexes rest tokens) : Lexes (' ' :: rest) tokens
  | token {piece rest : Text} {token : Token} {tokens : List Token} (hne : piece ≠ [])
      (hfirst : lexOne (piece ++ rest) = some (some token, rest)) (h : Lexes rest tokens) :
      Lexes (piece ++ rest) (token :: tokens)

theorem lex_of_lexes {text : Text} {tokens : List Token} (h : Lexes text tokens) {fuel : ℕ}
    (hfuel : text.length ≤ fuel) : lex fuel text = some tokens := by
  induction h generalizing fuel with
  | done => cases fuel <;> rfl
  | blank h ih =>
    cases fuel with
    | zero => simp at hfuel
    | succ fuel =>
      unfold lex
      exact ih (by simpa using hfuel)
  | @token piece rest token tokens hne hfirst h ih =>
    cases fuel with
    | zero =>
      have hpos := List.length_pos_of_ne_nil hne
      rw [List.length_append] at hfuel
      omega
    | succ fuel =>
      have hshort : rest.length ≤ fuel := by
        have hpos := List.length_pos_of_ne_nil hne
        rw [List.length_append] at hfuel
        omega
      cases hpiece : piece ++ rest with
      | nil => exact absurd (List.append_eq_nil_iff.mp hpiece).1 hne
      | cons c cs =>
        rw [hpiece] at hfirst
        unfold lex
        rw [hfirst]
        dsimp only
        rw [ih hshort]
        rfl

/-! ## Words and symbols -/

theorem not_startsLine {c : Char} {cs : Text} (hdash : c = '-' → cs.head? ≠ some '-')
    (hslash : c ≠ '/') : (engine .snowflake).startsLine (c :: cs) = false := by
  have hline : (['-', '-'].isPrefixOf (c :: cs)) = false := by
    by_cases hc : c = '-'
    · subst hc
      cases cs with
      | nil => rfl
      | cons d ds =>
        have hd : d ≠ '-' := fun h => hdash rfl (by rw [h]; rfl)
        simp [List.isPrefixOf, Ne.symm hd]
    · simp [List.isPrefixOf, Ne.symm hc]
  have hslashes : (['/', '/'].isPrefixOf (c :: cs)) = false := by
    simp [List.isPrefixOf, Ne.symm hslash]
  simp [Lexis.startsLine, engine, hline, hslashes]

theorem not_startsBlock {c : Char} {cs : Text} (hslash : c ≠ '/') :
    (engine .snowflake).startsBlock (c :: cs) = false := by
  simp [Lexis.startsBlock, engine, List.isPrefixOf, Ne.symm hslash]

/-- A character that starts neither a blank nor a comment. -/
theorem lexOne_cons {c : Char} {cs : Text} (hblank : c.isWhitespace = false)
    (hdash : c = '-' → cs.head? ≠ some '-') (hslash : c ≠ '/') :
    lexOne (c :: cs) =
      if c = '\'' then
        (stringBody (cs.length + 1) cs).map fun (content, rest) => (some (.string content), rest)
      else if c = '"' then
        (quotedBody (cs.length + 1) cs).map fun (name, rest) => (some (.quoted name), rest)
      else if c = '$' ∧ cs.head? = some '$' then
        (dollarBody cs.tail).map fun (content, rest) => (some (.string content), rest)
      else if c.isDigit ∨ c = '.' ∧ cs.head?.any Char.isDigit then
        some (some (.number (readNumeral (c :: cs)).1), (readNumeral (c :: cs)).2)
      else if wordChar c then
        some (some (.word (c :: cs.takeWhile wordChar)), cs.dropWhile wordChar)
      else some (some (.symbol c), cs) := by
  unfold lexOne
  dsimp only
  rw [hblank, not_startsLine hdash hslash, not_startsBlock hslash]
  rfl

/-- No blank, comment, literal or delimited identifier begins with the character. -/
structure Plain (c : Char) : Prop where
  blank : c.isWhitespace = false
  dash : c ≠ '-'
  slash : c ≠ '/'
  quote : c ≠ '\''
  double : c ≠ '"'
  dollar : c ≠ '$'

theorem plain_of_class {p : Char → Bool} (hp : " \t\r\n-/'\"$".toList.any p = false) {c : Char}
    (h : p c = true) : Plain c := by
  have hne : ∀ d ∈ " \t\r\n-/'\"$".toList, c ≠ d := by
    rintro d hd rfl
    rw [List.any_eq_false] at hp
    exact hp c hd h
  have hblank : c.isWhitespace = false := by
    simp [Char.isWhitespace, hne ' ' (by decide), hne '\t' (by decide), hne '\r' (by decide),
      hne '\n' (by decide)]
  exact ⟨hblank, hne '-' (by decide), hne '/' (by decide), hne '\'' (by decide),
    hne '"' (by decide), hne '$' (by decide)⟩

theorem lexOne_plain {c : Char} (h : Plain c) (cs : Text) :
    lexOne (c :: cs) =
      if c.isDigit ∨ c = '.' ∧ cs.head?.any Char.isDigit then
        some (some (.number (readNumeral (c :: cs)).1), (readNumeral (c :: cs)).2)
      else if wordChar c then
        some (some (.word (c :: cs.takeWhile wordChar)), cs.dropWhile wordChar)
      else some (some (.symbol c), cs) := by
  rw [lexOne_cons h.blank (fun hc => absurd hc h.dash) h.slash, if_neg h.quote, if_neg h.double,
    if_neg fun hdollar => h.dollar hdollar.1]

theorem lexOne_symbol {c : Char} (h : c ∈ ['(', ')', ',']) (rest : Text) :
    lexOne (c :: rest) = some (some (.symbol c), rest) := by
  have hplain : Plain c := plain_of_class (show _ = false by decide) (List.contains_iff_mem.mpr h)
  have hother : c.isDigit = false ∧ c ≠ '.' ∧ wordChar c = false := by
    rw [List.mem_cons, List.mem_pair] at h
    obtain rfl | rfl | rfl := h <;> decide
  rw [lexOne_plain hplain]
  simp [hother]

theorem lexOne_minus {rest : Text} (h : rest.head? ≠ some '-') :
    lexOne ('-' :: rest) = some (some (.symbol '-'), rest) := by
  have hword : wordChar '-' = false := by decide
  rw [lexOne_cons (by decide) (fun _ => h) (by decide)]
  simp [hword, Char.isDigit]

/-- A word begins with a letter or an underscore. -/
structure IsWord (word : Text) : Prop where
  first : ∃ c cs, word = c :: cs ∧ (c.isAlpha = true ∨ c = '_')
  chars : ∀ c ∈ word, wordChar c = true

theorem wordStart_plain {c : Char} (h : c.isAlpha = true ∨ c = '_') : Plain c := by
  obtain h | rfl := h
  · exact plain_of_class (by decide) h
  · exact ⟨by decide, by decide, by decide, by decide, by decide, by decide⟩

theorem wordStart_no_digit {c : Char} (h : c.isAlpha = true ∨ c = '_') :
    c.isDigit = false ∧ c ≠ '.' := by
  constructor
  · obtain h | rfl := h
    · have halpha : (65 ≤ c.toNat ∧ c.toNat ≤ 90) ∨ 97 ≤ c.toNat ∧ c.toNat ≤ 122 := by
        rwa [isAlpha_eq, Bool.or_eq_true, isUpper_iff, isLower_iff] at h
      by_contra hdigit
      rw [Bool.not_eq_false] at hdigit
      have hdigit : 48 ≤ c.toNat ∧ c.toNat ≤ 57 := by
        simpa [Char.isDigit, UInt32.le_iff_toNat_le] using hdigit
      omega
    · rfl
  · rintro rfl
    exact absurd h (by decide)

theorem lexOne_word {word rest : Text} (h : IsWord word)
    (hrest : ∀ c ∈ rest.head?, wordChar c = false) :
    lexOne (word ++ rest) = some (some (.word word), rest) := by
  obtain ⟨c, cs, rfl, hstart⟩ := h.first
  obtain ⟨hdigit, hpoint⟩ := wordStart_no_digit hstart
  have hall : ∀ d ∈ cs, wordChar d = true := fun d hd => h.chars d (List.mem_cons_of_mem _ hd)
  have htake : (cs ++ rest).takeWhile wordChar = cs := by
    rw [List.takeWhile_append_of_pos hall]
    cases rest with
    | nil => simp
    | cons d ds => simp [hrest d rfl]
  have hdrop : (cs ++ rest).dropWhile wordChar = rest := by
    rw [List.dropWhile_append_of_pos hall]
    cases rest with
    | nil => rfl
    | cons d ds => simp [hrest d rfl]
  rw [List.cons_append, lexOne_plain (wordStart_plain hstart), htake, hdrop]
  simp [hdigit, hpoint, h.chars c List.mem_cons_self]

/-! ## Delimited identifiers and strings -/

theorem quotedBody_eq {name rest : Text} (h : '"' ∉ name) (hrest : rest.head? ≠ some '"')
    {fuel : ℕ} (hfuel : name.length < fuel) :
    quotedBody fuel (name ++ '"' :: rest) = some (name, rest) := by
  induction name generalizing fuel with
  | nil =>
    cases fuel with
    | zero => simp at hfuel
    | succ fuel => simp [quotedBody, hrest]
  | cons c cs ih =>
    cases fuel with
    | zero => simp at hfuel
    | succ fuel =>
      rw [List.mem_cons, not_or] at h
      rw [List.cons_append, quotedBody, if_neg (Ne.symm h.1),
        ih h.2 (by simpa using hfuel)]
      rfl

theorem lexOne_quoted {name rest : Text} (h : '"' ∉ name) (hrest : rest.head? ≠ some '"') :
    lexOne ('"' :: (name ++ '"' :: rest)) = some (some (.quoted name), rest) := by
  have hfuel : name.length < (name ++ '"' :: rest).length + 1 := by
    rw [List.length_append]
    omega
  rw [lexOne_cons (by decide) (fun hc => absurd hc (by decide)) (by decide),
    quotedBody_eq h hrest hfuel]
  rfl

/-- A text with its backslashes and its quotes doubled. -/
def doubled (content : Text) : Text :=
  content.flatMap fun c => if c = '\\' then ['\\', '\\'] else if c = '\'' then ['\'', '\''] else [c]

/-- A backslash after a backslash stands for itself: it is no octal digit. -/
theorem escape_backslash (rest : Text) : escape ('\\' :: rest) = some ('\\', rest) := by
  have hoctal : escape.octal '\\' = none := by decide
  have hcode : codeOf 8 escape.octal 3 ('\\' :: rest) = none := by
    unfold codeOf
    split
    · rfl
    · rw [List.take_succ_cons, List.mapM_cons, hoctal]
      rfl
  have hunfold : escape ('\\' :: rest) = (codeOf 8 escape.octal 3 ('\\' :: rest)).or
      (some ('\\', rest)) := by
    unfold escape
    rfl
  rw [hunfold, hcode, Option.none_or]

theorem stringBody_doubled (content : Text) {rest : Text} (hrest : rest.head? ≠ some '\'')
    {fuel : ℕ} (hfuel : content.length < fuel) :
    stringBody fuel (doubled content ++ '\'' :: rest) = some (content, rest) := by
  induction content generalizing fuel with
  | nil =>
    cases fuel with
    | zero => simp at hfuel
    | succ fuel => simp [doubled, stringBody, hrest]
  | cons c cs ih =>
    cases fuel with
    | zero => simp at hfuel
    | succ fuel =>
      have hrec := @ih fuel (by simpa using hfuel)
      unfold doubled at hrec ⊢
      rw [List.flatMap_cons]
      by_cases hback : c = '\\'
      · subst hback
        simp [stringBody, escape_backslash, hrec]
      · by_cases hquote : c = '\''
        · subst hquote
          simp [stringBody, hrec]
        · simp [stringBody, hback, hquote, hrec]

/-- A literal with all its backslashes and quotes doubled stands for the text itself. -/
theorem lexOne_string (content : Text) {rest : Text} (hrest : rest.head? ≠ some '\'') :
    lexOne ('\'' :: (doubled content ++ '\'' :: rest)) = some (some (.string content), rest) := by
  have hlength : content.length ≤ (doubled content).length := by
    unfold doubled
    induction content with
    | nil => exact Nat.le_refl _
    | cons c cs ih =>
      rw [List.flatMap_cons, List.length_append, List.length_cons]
      split
      · simp only [List.length_cons, List.length_nil]
        omega
      · split
        · simp only [List.length_cons, List.length_nil]
          omega
        · simp only [List.length_cons, List.length_nil]
          omega
  have hfuel : content.length < (doubled content ++ '\'' :: rest).length + 1 := by
    rw [List.length_append]
    omega
  rw [lexOne_cons (by decide) (fun hc => absurd hc (by decide)) (by decide),
    stringBody_doubled content hrest hfuel]
  rfl

/-! ## Numerals -/

theorem lexOne_number {text rest : Text} {value : ℚ} (hread : readNumeral text = (value, rest))
    (hdigit : ∃ c cs, text = c :: cs ∧ c.isDigit = true) :
    lexOne text = some (some (.number value), rest) := by
  obtain ⟨c, cs, rfl, hc⟩ := hdigit
  rw [lexOne_plain (plain_of_class (by decide) hc), hread, if_pos (.inl hc)]

end DataQ.Sql.Snowflake
