import DataQ.Sql.Guard

/-! # The lexical rules of the engines

What each engine takes as a literal, a delimited identifier or a comment. These rules are stated
for the engines themselves, apart from the guard's own scanner; what they leave of a query is what
the engine executes. -/

namespace DataQ.Sql
open DataQ.Scanning
set_option autoImplicit false

/-- Dollar quoting: not there, `$$…$$` only, or `$tag$…$tag$`. -/
inductive Dollar
  | off | plain | tagged
  deriving DecidableEq, Repr

structure Lexis where
  /-- Opener and closer of literals and delimited identifiers. -/
  quotes : List (Char × Char)
  /-- Openers inside which a backslash takes the next character with it. -/
  backslash : List Char := []
  /-- Whether a doubled closer stays inside. -/
  doubled : Bool := true
  /-- A letter right before `'` that turns the backslash on. -/
  escapePrefix : Option Char := none
  /-- A letter right before a literal in which only the closer counts. -/
  rawPrefix : Option Char := none
  /-- `'''…'''` and `"""…"""`. -/
  tripled : Bool := false
  dollar : Dollar := .off
  /-- `#` starts a line comment. -/
  hashComments : Bool := false
  /-- `//` starts a line comment. -/
  slashComments : Bool := false
  /-- `--` starts a line comment only before a blank or a control character. -/
  dashNeedsBlank : Bool := false
  /-- What is in `/*! … */` is executed. -/
  versionComments : Bool := false
  /-- A backslash at the end of a line comment carries it on. -/
  continuedComments : Bool := false
  nestedComments : Bool := false
  lineEnds : List Char := ['\n', '\r']
  /-- What a word may hold besides letters, digits, `_` and characters beyond ASCII. -/
  marks : List Char := []

def engine : SqlType → Lexis
  | .snowflake =>
    { quotes := [('\'', '\''), ('"', '"')], backslash := ['\''], dollar := .plain,
      slashComments := true, marks := ['$'] }
  | .unityCatalog =>
    { quotes := [('\'', '\''), ('"', '"'), ('`', '`')], backslash := ['\'', '"'],
      rawPrefix := some 'r', continuedComments := true, nestedComments := true }
  | .postgres =>
    { quotes := [('\'', '\''), ('"', '"')], escapePrefix := some 'e', dollar := .tagged,
      nestedComments := true, marks := ['$'] }
  | .mysql =>
    { quotes := [('\'', '\''), ('"', '"'), ('`', '`')], backslash := ['\'', '"'],
      hashComments := true, dashNeedsBlank := true, versionComments := true,
      lineEnds := ['\n'], marks := ['$'] }
  | .trino | .athena => { quotes := [('\'', '\''), ('"', '"')] }
  | .mssql =>
    { quotes := [('\'', '\''), ('"', '"'), ('[', ']')], nestedComments := true,
      marks := ['$', '#', '@'] }
  | .redshift =>
    { quotes := [('\'', '\''), ('"', '"')], backslash := ['\''], dollar := .tagged,
      nestedComments := true, marks := ['$'] }
  | .bigquery =>
    { quotes := [('\'', '\''), ('"', '"'), ('`', '`')], backslash := ['\'', '"', '`'],
      doubled := false, tripled := true, hashComments := true }

def Lexis.wordChar (e : Lexis) (c : Char) : Bool :=
  c.isAlpha || c.isDigit || c = '_' || e.marks.contains c || 128 ≤ c.toNat

def closeAt (close : Text) (backslash : Bool) : Text → Option Text
  | [] => none
  | c :: cs =>
    if backslash && c = '\\' then
      match cs with
      | [] => none
      | _ :: cs' => closeAt close backslash cs'
    else if close.isPrefixOf (c :: cs) then some ((c :: cs).drop close.length)
    else closeAt close backslash cs

/-- What follows a block comment that may hold others, `depth` of which are open. -/
def nestedEnd (depth : ℕ) : Text → Option Text
  | [] => none
  | [_] => none
  | c :: d :: cs =>
    if c = '/' && d = '*' then nestedEnd (depth + 1) cs
    else if c = '*' && d = '/' then if depth = 0 then some cs else nestedEnd (depth - 1) cs
    else nestedEnd depth (d :: cs)

def lineRest (e : Lexis) : Text → Text
  | [] => []
  | c :: cs =>
    if e.continuedComments && c = '\\' then
      match cs with
      | [] => []
      | d :: cs' => if d = '\n' then lineRest e cs' else lineRest e (d :: cs')
    else if e.lineEnds.contains c then c :: cs
    else lineRest e cs

def Lexis.startsLine (e : Lexis) (text : Text) : Bool :=
  (['-', '-'].isPrefixOf text && (!e.dashNeedsBlank || (text.drop 2).head?.all (·.toNat ≤ 32))) ||
    (e.hashComments && ['#'].isPrefixOf text) || (e.slashComments && ['/', '/'].isPrefixOf text)

def Lexis.startsBlock (e : Lexis) (text : Text) : Bool :=
  ['/', '*'].isPrefixOf text && !(e.versionComments &&
    (['!'].isPrefixOf (text.drop 2) || ['M', '!'].isPrefixOf (text.drop 2)))

/-- Whether the word in front of a literal is a prefix of that literal. -/
def Lexis.prefixed (e : Lexis) (mark : Option Char) (before : Text) : Bool :=
  match before.takeWhile e.wordChar with
  | [c] => mark = some c.toLower
  | _ => false

/-- What follows the literal or delimited identifier that `open'` starts. -/
def Lexis.literalEnd (e : Lexis) (before : Text) (open' close : Char) (cs : Text) : Option Text :=
  let text := open' = '\'' || open' = '"'
  let backslash := e.backslash.contains open' || (open' = '\'' && e.prefixed e.escapePrefix before)
  if text && e.prefixed e.rawPrefix before then closeAt [close] false cs
  else if e.tripled && text && [close, close].isPrefixOf cs then
    closeAt [close, close, close] backslash (cs.drop 2)
  else if e.doubled then quotedEnd close backslash cs
  else closeAt [close] backslash cs

/-- The tag of a dollar quote that starts after the first `$`. -/
def Lexis.dollarTag (e : Lexis) (before cs : Text) : Option Text :=
  let tag := cs.takeWhile fun c => c.isAlpha || c.isDigit || c = '_' || 128 ≤ c.toNat
  let plain := tag = []
  if before.head?.any e.wordChar || (cs.drop tag.length).head? ≠ some '$' then none
  else
    match e.dollar with
    | .off => none
    | .plain => if plain then some tag else none
    | .tagged => if tag.head?.any Char.isDigit then none else some tag

/-- What the engine takes at a position as no part of what it executes. -/
def Lexis.skip (e : Lexis) : Skip Char := fun before text =>
  match text with
  | [] => none
  | c :: cs =>
    let ended (rest : Option Text) : Option (Text × Bool) := some (rest.getD [], rest.isSome)
    if e.startsLine (c :: cs) then some (lineRest e cs, true)
    else if e.startsBlock (c :: cs) then
      ended (if e.nestedComments then nestedEnd 0 cs.tail else closeAt ['*', '/'] false cs.tail)
    else
      match e.quotes.lookup c with
      | some close => ended (e.literalEnd before c close cs)
      | none =>
        if c = '$' then
          (e.dollarTag before cs).bind fun tag =>
            ended (closeAt (['$'] ++ tag ++ ['$']) false (cs.drop (tag.length + 1)))
        else none

/-! ## What is executed -/

/-- What the engine executes of a query. -/
def executable (e : Lexis) (query : Text) : Text := (scan e.skip ' ' query.length [] query).1

def statements (code : Text) : List Text :=
  (code.splitOnP (· = ';')).filter fun s => s.any (!asciiSpace ·)

/-- The first word, behind blanks and open parentheses. -/
def firstWord (e : Lexis) (code : Text) : Text :=
  (code.dropWhile fun c => asciiSpace c || c = '(').takeWhile e.wordChar

/-- The words, without the digits of a number they may touch. -/
def words (e : Lexis) (code : Text) : List Text :=
  (runs e.wordChar code).map (·.dropWhile Char.isDigit)

/-- What the guard is for: one statement that reads. -/
structure Sound (t : SqlType) (query : Text) : Prop where
  single : (statements (executable (engine t) query)).length = 1
  readOnly : lower (firstWord (engine t) (executable (engine t) query)) ∈ readOnlyStarts
  allowed : ∀ w ∈ words (engine t) (executable (engine t) query), lower w ∉ forbiddenWords (some t)

instance (t : SqlType) (query : Text) : Decidable (Sound t query) :=
  decidable_of_iff
    ((statements (executable (engine t) query)).length = 1 ∧
      lower (firstWord (engine t) (executable (engine t) query)) ∈ readOnlyStarts ∧
      ∀ w ∈ words (engine t) (executable (engine t) query), lower w ∉ forbiddenWords (some t))
    ⟨fun ⟨h1, h2, h3⟩ => ⟨h1, h2, h3⟩, fun ⟨h1, h2, h3⟩ => ⟨h1, h2, h3⟩⟩

theorem wordChar_engine (e : Lexis) {c : Char} (h : wordChar c = true) : e.wordChar c = true := by
  rcases Bool.or_eq_true _ _ |>.mp h with h | h
  · simp [Lexis.wordChar, h]
  · simp [Lexis.wordChar, of_decide_eq_true h]

theorem engine_wordChar_trailing (t : SqlType) {c : Char} (h : trailing c = true) :
    (engine t).wordChar c = false := by
  have hc : c.toNat ∈ [9, 10, 11, 12, 13, 32, 59] := by
    rcases Bool.or_eq_true _ _ |>.mp h with h | h
    · rw [asciiSpace, Bool.or_eq_true, Bool.and_eq_true] at h
      have h1 : (9 ≤ c.toNat ∧ c.toNat ≤ 13) ∨ c.toNat = 32 := by simpa using h
      simp only [List.mem_cons, List.not_mem_nil, or_false]
      omega
    · rw [of_decide_eq_true h]
      decide
  have hchar : c = Char.ofNat c.toNat := (Char.ofNat_toNat c).symm
  rw [hchar]
  generalize c.toNat = n at hc
  cases t <;> revert n <;> decide

end DataQ.Sql
