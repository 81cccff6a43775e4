import Mathlib.Data.Char
import Mathlib.Data.List.Dedup
import Mathlib.Data.List.Infix
import Mathlib.Data.List.Lex
import Mathlib.Data.List.Sort
import DataQ.Foundations.Scanning
import DataQ.Foundations.Text

/-! # The custom-SQL guard

`services/custom_sql.py`: which query of a custom-SQL check is let through to the engine. -/

namespace DataQ.Sql
open DataQ.Scanning
set_option autoImplicit false

/-- `SQL_QUERYABLE_TYPES`. -/
inductive SqlType
  | snowflake | unityCatalog | postgres | mysql | trino | mssql | athena | redshift | bigquery
  deriving DecidableEq, Repr

def SqlType.key : SqlType → Text
  | .snowflake => "snowflake".toList
  | .unityCatalog => "unity_catalog".toList
  | .postgres => "postgres".toList
  | .mysql => "mysql".toList
  | .trino => "trino".toList
  | .mssql => "mssql".toList
  | .athena => "athena".toList
  | .redshift => "redshift".toList
  | .bigquery => "bigquery".toList

def sqlQueryableTypes : List SqlType :=
  [.snowflake, .unityCatalog, .postgres, .mysql, .trino, .mssql, .athena, .redshift, .bigquery]

/-- `CustomSqlInvalidError`; an argument is what `detail` holds besides the query's key. -/
inductive CustomSqlInvalid
  | notSql (connectionType : Text)
  | missing
  | unterminated
  | onlyComments
  | chained
  | notReadOnly (firstKeyword : Text)
  | forbidden (words : List Text)
  deriving DecidableEq, Repr

def CustomSqlInvalid.message : CustomSqlInvalid → Text
  | .notSql connectionType =>
    "custom-SQL checks require a SQL datasource, not '".toList ++ connectionType ++ ['\'']
  | .missing => "custom-SQL check requires a non-empty 'unexpected_rows_query'".toList
  | .unterminated => "custom-SQL has an unterminated string literal or comment".toList
  | .onlyComments => "custom-SQL query is empty after removing comments".toList
  | .chained => "custom-SQL must be a single statement (no ';'-chained statements)".toList
  | .notReadOnly _ => "custom-SQL must be a read-only SELECT / WITH query".toList
  | .forbidden _ => "custom-SQL must be read-only; remove the disallowed keyword(s)".toList

def forbiddenKeywords : List Text :=
  ["insert".toList, "update".toList, "delete".toList, "merge".toList, "upsert".toList,
    "truncate".toList, "drop".toList, "alter".toList, "create".toList, "grant".toList,
    "revoke".toList, "commit".toList, "rollback".toList, "into".toList, "call".toList,
    "exec".toList, "execute".toList, "do".toList, "copy".toList, "lock".toList, "set".toList,
    "reset".toList, "discard".toList, "prepare".toList, "deallocate".toList, "vacuum".toList,
    "analyze".toList, "use".toList, "attach".toList, "detach".toList, "unload".toList]

/-- `_DIALECT_FORBIDDEN["mssql"]`. -/
def mssqlForbidden : List Text :=
  ["openquery".toList, "openrowset".toList, "opendatasource".toList, "bulk".toList,
    "dbcc".toList, "waitfor".toList, "shutdown".toList, "kill".toList, "reconfigure".toList,
    "backup".toList, "restore".toList, "dump".toList, "load".toList, "writetext".toList,
    "updatetext".toList, "deny".toList, "receive".toList, "send".toList, "enable".toList,
    "disable".toList, "checkpoint".toList, "setuser".toList, "revert".toList]

/-- `forbidden_words` of a connection type, or of none. -/
def forbiddenWords : Option SqlType → List Text
  | none | some .mssql => forbiddenKeywords ++ mssqlForbidden
  | some _ => forbiddenKeywords

/-- `_IDENTIFIER_QUOTES`: opener and closer. -/
def identifierQuotes : SqlType → List (Char × Char)
  | .unityCatalog => [('`', '`')]
  | .mssql => [('[', ']')]
  | _ => []

/-- The lexings a query has to pass; `_ALL_IDENTIFIER_QUOTES` for no connection type. -/
def lexings : Option SqlType → List (List (Char × Char))
  | none => [[], identifierQuotes .unityCatalog, identifierQuotes .mssql]
  | some t => [identifierQuotes t]

/-! ## The scanner -/

/-- What follows a literal or a delimited identifier; a doubled quote stays in it. -/
def quotedEnd (quote : Char) (backslash : Bool) : Text → Option Text
  | [] => none
  | c :: cs =>
    if backslash && c = '\\' then
      match cs with
      | [] => none
      | _ :: cs' => quotedEnd quote backslash cs'
    else if c = quote then
      match cs with
      | [] => some []
      | d :: cs' => if d = quote then quotedEnd quote backslash cs' else some (d :: cs')
    else quotedEnd quote backslash cs

/-- A text in front of the first `*/`, and what follows it. -/
def blockSplit : Text → Option (Text × Text)
  | [] => none
  | c :: cs =>
    if c = '*' && cs.head? = some '/' then some ([], cs.tail)
    else (blockSplit cs).map fun split => (c :: split.1, split.2)

/-- The closer of a quote. -/
def closer (quotes : List (Char × Char)) (c : Char) : Option Char :=
  if c = '\'' || c = '"' || (quotes.lookup c).isSome then some ((quotes.lookup c).getD c) else none

/-- What the loop of `_strip_noncode` takes at a position. -/
def skipNoncode (quotes : List (Char × Char)) : Skip Char := fun _ text =>
  match text with
  | [] => none
  | c :: cs =>
    if c = '-' && cs.head? = some '-' then
      some (cs.tail.dropWhile fun d => d ≠ '\n' && d ≠ '\r', true)
    else if c = '/' && cs.head? = some '*' then
      match blockSplit cs.tail with
      | none => some ([], false)
      | some (body, rest) => some (rest, !decide (['/', '*'] <:+: body))
    else
      match closer quotes c with
      | none => none
      | some quote =>
        match quotedEnd quote false cs with
        | none => some ([], false)
        | some rest => some (rest, true)

/-- `_strip_noncode`: the code, and whether it is well formed. -/
def stripNoncode (sql : Text) (quotes : List (Char × Char)) : Text × Bool :=
  scan (skipNoncode quotes) ' ' sql.length [] sql

theorem quotedEnd_length {quote : Char} {backslash : Bool} {s rest : Text}
    (h : quotedEnd quote backslash s = some rest) : rest.length ≤ s.length := by
  fun_induction quotedEnd quote backslash s with
  | case1 => cases h
  | case2 => cases h
  | case3 c _ _ _ ih =>
    have := ih h
    simp only [List.length_cons]
    omega
  | case4 =>
    cases h
    exact Nat.zero_le _
  | case5 _ _ ih =>
    have := ih h
    simp only [List.length_cons]
    omega
  | case6 =>
    cases h
    exact Nat.le_succ _
  | case7 c cs _ _ ih =>
    have := ih h
    rw [List.length_cons]
    omega

theorem blockSplit_length {s body rest : Text} (h : blockSplit s = some (body, rest)) :
    rest.length ≤ s.length := by
  induction s generalizing body with
  | nil => cases h
  | cons c cs ih =>
    rw [blockSplit] at h
    split at h
    · cases h
      rw [List.length_tail, List.length_cons]
      omega
    · obtain ⟨split, hsplit, heq⟩ := Option.map_eq_some_iff.mp h
      cases heq
      have := ih hsplit
      rw [List.length_cons]
      omega

theorem skipNoncode_shrinks (quotes : List (Char × Char)) : Shrinks (skipNoncode quotes) := by
  intro before text rest closed h
  cases text with
  | nil => cases h
  | cons c cs =>
    rw [List.length_cons]
    simp only [skipNoncode] at h
    split at h
    · cases h
      have h1 := List.length_dropWhile_le (fun d => decide (d ≠ '\n') && decide (d ≠ '\r')) cs.tail
      rw [List.length_tail] at h1
      omega
    · split at h
      · split at h
        · cases h
          rw [List.length_nil]
          omega
        · next hsplit =>
          cases h
          have h1 := blockSplit_length hsplit
          rw [List.length_tail] at h1
          omega
      · split at h
        · cases h
        · split at h
          · cases h
            rw [List.length_nil]
            omega
          · next hend =>
            cases h
            have h1 := quotedEnd_length hend
            omega

theorem stripNoncode_total (sql : Text) (quotes : List (Char × Char)) (more : ℕ) :
    scan (skipNoncode quotes) ' ' (sql.length + more) [] sql = stripNoncode sql quotes := by
  induction more with
  | zero => rfl
  | succ more ih =>
    rw [← ih]
    exact scan_fuel (skipNoncode_shrinks quotes) ' ' (Nat.le_add_right sql.length more)

/-! ## The checks -/

/-- A character of `_WORD`. -/
def wordChar (c : Char) : Bool := c.isAlpha || c = '_'

/-- A character of `_TRAILING_CHARS`. -/
def trailing (c : Char) : Bool := asciiSpace c || c = ';'

/-- The code without the blanks around it and a closing semicolon. -/
def analysis (code : Text) : Text := (pyStrip code).rdropWhile trailing

/-- `_LEADING_KEYWORD`, lowered; empty where it does not match. -/
def leadingKeyword (code : Text) : Text :=
  lower ((code.dropWhile fun c => pySpace c || c = '(').takeWhile Char.isAlpha)

def readOnlyStarts : List Text := ["select".toList, "with".toList]

/-- `sorted` of the forbidden words among the words of the code. -/
def foundForbidden (code : Text) (words : List Text) : List Text :=
  (((runs wordChar code).map lower).dedup.filter (· ∈ words)).insertionSort (· ≤ ·)

def validateLexed (query : Text) (words : List Text) (quotes : List (Char × Char)) :
    Except CustomSqlInvalid Unit :=
  let (code, wellFormed) := stripNoncode query quotes
  if !wellFormed then .error .unterminated
  else if analysis code = [] then .error .onlyComments
  else if ';' ∈ analysis code then .error .chained
  else if leadingKeyword (analysis code) ∉ readOnlyStarts then
    .error (.notReadOnly (leadingKeyword (analysis code)))
  else if foundForbidden (analysis code) words ≠ [] then
    .error (.forbidden (foundForbidden (analysis code) words))
  else .ok ()

/-- `validate_query`; the query is `none` where it is not a string. -/
def validateQuery (query : Option Text) (connectionType : Option SqlType) :
    Except CustomSqlInvalid Unit :=
  match query with
  | none => .error .missing
  | some sql =>
    if pyStrip sql = [] then .error .missing
    else (lexings connectionType).forM (validateLexed sql (forbiddenWords connectionType))

def validateCustomSqlCheck (expectationType : Text) (query : Option Text) (connectionType : Text) :
    Except CustomSqlInvalid Unit :=
  if expectationType ≠ "unexpected_rows_expectation".toList then .ok ()
  else
    match sqlQueryableTypes.find? (·.key = connectionType) with
    | none => .error (.notSql connectionType)
    | some t => validateQuery query (some t)

theorem foundForbidden_eq_nil {code : Text} {words : List Text} :
    foundForbidden code words = [] ↔ ∀ w ∈ runs wordChar code, lower w ∉ words := by
  rw [foundForbidden, ← List.length_eq_zero_iff, List.length_insertionSort,
    List.length_eq_zero_iff, List.filter_eq_nil_iff]
  simp only [List.mem_dedup, List.mem_map, decide_eq_true_eq, forall_exists_index, and_imp,
    forall_apply_eq_imp_iff₂]

/-- What is known of a query that one lexing lets through. -/
structure Passes (query : Text) (words : List Text) (quotes : List (Char × Char)) : Prop where
  wellFormed : (stripNoncode query quotes).2 = true
  code : analysis (stripNoncode query quotes).1 ≠ []
  single : ';' ∉ analysis (stripNoncode query quotes).1
  readOnly : leadingKeyword (analysis (stripNoncode query quotes).1) ∈ readOnlyStarts
  allowed : ∀ w ∈ runs wordChar (analysis (stripNoncode query quotes).1), lower w ∉ words

theorem validateLexed_ok {query : Text} {words : List Text} {quotes : List (Char × Char)}
    (h : validateLexed query words quotes = .ok ()) : Passes query words quotes := by
  simp only [validateLexed] at h
  split at h
  · cases h
  · next hclosed =>
    split at h
    · cases h
    · next hcode =>
      split at h
      · cases h
      · next hsingle =>
        split at h
        · cases h
        · next hlead =>
          split at h
          · cases h
          · next hfound =>
            exact ⟨by simpa using hclosed, hcode, hsingle, not_not.mp hlead,
              foundForbidden_eq_nil.mp (not_not.mp hfound)⟩

theorem validateQuery_ok {sql : Text} {t : SqlType}
    (h : validateQuery (some sql) (some t) = .ok ()) :
    Passes sql (forbiddenWords (some t)) (identifierQuotes t) := by
  simp only [validateQuery] at h
  split at h
  · cases h
  · cases hlexed : validateLexed sql (forbiddenWords (some t)) (identifierQuotes t) with
    | ok _ => exact validateLexed_ok hlexed
    | error e =>
      simp [lexings, hlexed] at h

theorem validateCustomSqlCheck_ok {query : Option Text} {connectionType : Text}
    (h : validateCustomSqlCheck "unexpected_rows_expectation".toList query connectionType = .ok ()) :
    ∃ sql t, query = some sql ∧ t.key = connectionType ∧
      validateQuery (some sql) (some t) = .ok () := by
  rw [validateCustomSqlCheck, if_neg (by simp)] at h
  split at h
  · cases h
  · next t ht =>
    cases query with
    | none => cases h
    | some sql => exact ⟨sql, t, rfl, by simpa using List.find?_some ht, h⟩

end DataQ.Sql
