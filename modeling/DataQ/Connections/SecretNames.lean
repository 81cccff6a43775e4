import DataQ.Foundations.Joined
import DataQ.Foundations.Text

/-! # Secret names

`core/secret_names.py`: the vault key a credential of a connection is minted under. `nfkd` is
`unicodedata.normalize("NFKD", ·)`. -/

namespace DataQ.Connections
open DataQ.Joined
set_option autoImplicit false

def maxSlug : ℕ := 60

def idChars : ℕ := 8

def maxInput : ℕ := 256

def typeSlugs : List (Text × Text) :=
  [("adls_gen2".toList, "adls".toList), ("unity_catalog".toList, "unity-catalog".toList)]

def typeWords : List (Text × List Text) :=
  [("adf".toList, ["azure".toList, "data".toList, "factory".toList]),
    ("adls_gen2".toList, ["adls".toList, "gen2".toList, "azure".toList, "storage".toList]),
    ("airflow".toList, ["apache".toList, "airflow".toList]),
    ("unity_catalog".toList, ["unity".toList, "catalog".toList, "databricks".toList]),
    ("snowflake".toList, ["snowflake".toList]),
    ("iceberg".toList, ["iceberg".toList, "apache".toList]),
    ("dbt".toList, ["dbt".toList]),
    ("s3".toList, ["s3".toList, "aws".toList, "amazon".toList]),
    ("gcs".toList, ["gcs".toList, "google".toList, "cloud".toList, "storage".toList]),
    ("postgres".toList, ["postgres".toList, "postgresql".toList, "pg".toList]),
    ("mysql".toList, ["mysql".toList, "mariadb".toList]),
    ("mssql".toList, ["mssql".toList, "sql".toList, "server".toList, "sqlserver".toList])]

/-- `_split_parentheticals`, at a depth: the text outside and inside of parentheses. -/
def splitParentheticals : ℕ → Text → Text × Text
  | _, [] => ([], [])
  | depth, c :: cs =>
    if c = '(' then splitParentheticals (depth + 1) cs
    else if c = ')' then splitParentheticals (depth - 1) cs
    else
      let rest := splitParentheticals depth cs
      if depth = 0 then (c :: rest.1, rest.2) else (rest.1, c :: rest.2)

/-- `re.sub("[…]+", "-", text)`; `inRun` is whether the character before was replaced. -/
def subRuns (p : Char → Bool) : (inRun : Bool) → Text → Text
  | _, [] => []
  | inRun, c :: cs =>
    if p c then (if inRun then subRuns p true cs else '-' :: subRuns p true cs)
    else c :: subRuns p false cs

def allowed (c : Char) : Bool := c.isAlphanum || c == '-'

variable (nfkd : Text → Text)

def slugify (text : Text) : Text :=
  let decomposed := nfkd (text.take maxInput)
  let asciiOnly := decomposed.filter (·.toNat < 128)
  let slug := subRuns (!allowed ·) false asciiOnly
  -- A run of one dash is left as it is, which is what replacing it by a dash does.
  let slug := (strip '-' (subRuns (· == '-') false slug)).map Char.toLower
  strip '-' (slug.take maxSlug)

/-- `list(dict.fromkeys(tokens))`. -/
def firstOccurrences : List Text → List Text
  | [] => []
  | t :: ts => t :: (firstOccurrences ts).filter (· ≠ t)

def dashJoin (parts : List Text) : Text := ['-'].intercalate parts

def shortId (connectionId : Text) : Text :=
  ((connectionId.filter (· ≠ '-')).filter allowed).take idChars

def typeSlug (connType : Text) : Text := (typeSlugs.lookup connType).getD (slugify nfkd connType)

/-- The words of a name that only repeat its type. -/
def noise (connType : Text) : List Text :=
  (typeWords.lookup connType).getD [] ++ (typeSlug nfkd connType).splitOn '-'

def qualify (connType text : Text) : List Text :=
  ((slugify nfkd text).splitOn '-').filter fun t => t ≠ [] && !(noise nfkd connType).contains t

def qualifier (connType name : Text) : List Text :=
  let parts := splitParentheticals 0 (name.take maxInput)
  let outside := qualify nfkd connType parts.1
  if outside = [] then qualify nfkd connType parts.2 else outside

/-- The `head` tokens: what the kind of a credential has no part in. -/
def headTokens (name connType : Text) : List Text :=
  let type := typeSlug nfkd connType
  firstOccurrences
    ("conn".toList :: ((if type = [] then [] else type.splitOn '-') ++ qualifier nfkd connType name))

/-- The loop that builds `tail`: each token once, and none that was seen before. -/
def tailTokens : (seen : List Text) → List Text → List Text
  | _, [] => []
  | seen, t :: ts =>
    if t ≠ [] && !seen.contains t then t :: tailTokens (t :: seen) ts else tailTokens seen ts

/-- What the 60 characters leave for the head in front of a tail. -/
def headBudget (tail : Text) : ℕ := maxSlug - tail.length - (if tail = [] then 0 else 1)

/-- `head_str`: the joined head, cut to a budget. -/
def cutHead (name connType : Text) (budget : ℕ) : Text :=
  strip '-' ((dashJoin (headTokens nfkd name connType)).take budget)

def tailText (env name connType kind : Text) : Text :=
  dashJoin (tailTokens (headTokens nfkd name connType) [slugify nfkd kind, slugify nfkd env])

def connectionSecretRef (connectionId env name connType kind : Text) : Text :=
  let tail := tailText nfkd env name connType kind
  let slug := join '-' (cutHead nfkd name connType (headBudget tail)) tail
  let ref := strip '-' (join '-' slug (shortId connectionId))
  if ref = [] then "conn".toList else ref

example : connectionSecretRef id "1f2e3d4c-0000".toList "dev".toList "Retail (EU) lake".toList
    "iceberg".toList "catalog".toList = "conn-iceberg-retail-lake-catalog-dev-1f2e3d4c".toList := by
  decide

end DataQ.Connections
