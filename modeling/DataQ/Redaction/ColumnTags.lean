import DataQ.Foundations.Dictionary
import DataQ.Redaction.Ladder
import Mathlib.Data.Char
import Mathlib.Data.List.Lex
import Mathlib.Data.List.Sort

/-! # Column tags

`services/column_tags.py`: the verdicts of the rows that a warehouse gives for a table's columns, the
`sensitive` ones that come down through recorded lineage and the detections of the profiler, laid
over one another. -/

namespace DataQ.Redaction
set_option autoImplicit false

def sensitive : Text := "sensitive".toList
def nonSensitive : Text := "public".toList
def detected : Text := "detected".toList

def dataqTagKey : Text := "dataq_classification".toList
def snowflakePrivacyTag : Text := "privacy_category".toList

def snowflakePrivacySensitive : List Text :=
  ["identifier".toList, "quasi_identifier".toList, "sensitive".toList]

def sensitiveValues : List Text :=
  ["sensitive".toList, "pii".toList, "confidential".toList, "restricted".toList, "secret".toList]

def nonSensitiveValues : List Text :=
  ["public".toList, "non_sensitive".toList, "nonsensitive".toList]

/-- A row of the tag query: a column, a tag and its value, where the row is not short. -/
abbrev TagRow := List (Option Text)

/-- A column of an asset, which is named by its id. -/
abbrev Cell := Text × Text

/-- What is read for an asset, each `none` where its read fails. -/
structure Session where
  lineageClassificationPropagation : Bool
  upstreamColumnSources : Option (List (Text × List Cell) × Bool)
  columnTags : Option (Text → Option (List (Text × Text)))
  /-- The columns of the detections, and whether each is dismissed. -/
  detections : Option (List (Text × Bool))

/-- An asset's own tags; `none` where none were ever read. -/
structure Asset where
  columnTags : Option (List (Text × Text))

variable (py : Python)

def normalizeTag (tagName tagValue : Option Text) : Option Text :=
  match tagName, tagValue with
  | some (c :: tagName), some tagValue =>
    let name := py.lower (pyStrip (c :: tagName))
    let value := py.lower (pyStrip tagValue)
    if name = snowflakePrivacyTag then
      if value ∈ snowflakePrivacySensitive then some sensitive else none
    else if name ≠ dataqTagKey then none
    else if value ∈ sensitiveValues then some sensitive
    else if value ∈ nonSensitiveValues then some nonSensitive
    else none
  | _, _ => none

/-- `_merge`. -/
def merge (tags : List (Text × Text)) (column : Text) (verdict : Option Text) :
    List (Text × Text) :=
  match verdict with
  | none => tags
  | some verdict =>
    let key := foldKey py column
    if tags.lookup key = some sensitive then tags else setField key verdict tags

def mergeRow (tags : List (Text × Text)) : TagRow → List (Text × Text)
  | some column :: tagName :: tagValue :: _ => merge py tags column (normalizeTag py tagName tagValue)
  | _ => tags

/-- `_rows_to_tags`. -/
def rowsToTags (rows : List TagRow) : List (Text × Text) := rows.foldl (mergeRow py) []

/-- `_cell_sensitive`; no tags are the empty ones. -/
def cellSensitive (tags : Option (List (Text × Text))) (column : Text) : Bool :=
  tagValue py column { entries := tags.getD [] } ∈ sensitiveValues

def cellLe (a b : Cell) : Prop := a.1 < b.1 ∨ a.1 = b.1 ∧ a.2 ≤ b.2

instance : DecidableRel cellLe := fun _ _ => inferInstanceAs (Decidable (_ ∨ _))

/-- What a column that lineage derives from some cells inherits of them. -/
def inherit (own : List Text) (tagsByAsset : Text → Option (List (Text × Text)))
    (out : List (Text × List Cell)) (source : Text × List Cell) : List (Text × List Cell) :=
  let key := py.lower (pyStrip source.1)
  if key ∈ own then out
  else
    let hits := (source.2.filter fun cell =>
      cellSensitive py (tagsByAsset cell.1) cell.2).insertionSort cellLe
    if hits = [] then out else setField key hits out

/-- The columns that inherit, each with the cells that justify it. -/
def inheritedFrom (own : List (Text × Text)) (tagsByAsset : Text → Option (List (Text × Text)))
    (sources : List (Text × List Cell)) : List (Text × List Cell) :=
  sources.foldl (inherit py (own.map fun entry => py.lower (pyStrip entry.1)) tagsByAsset) []

def inheritedSensitiveWithTruncation (session : Session) (asset : Asset) :
    Option (List (Text × List Cell) × Bool) :=
  if !session.lineageClassificationPropagation then some ([], false)
  else
    match session.upstreamColumnSources with
    | none => none
    | some ([], truncated) => some ([], truncated)
    | some (sources, truncated) =>
      session.columnTags.map fun tagsByAsset =>
        (inheritedFrom py (asset.columnTags.getD []) tagsByAsset sources, truncated)

def inheritedSensitive (session : Session) (asset : Asset) : Option (List (Text × List Cell)) :=
  (inheritedSensitiveWithTruncation py session asset).map Prod.fst

/-- `active_detected_columns`: the names are a set, in the order of their text. -/
def activeDetectedColumns (session : Session) : Option (List Text) :=
  session.detections.map fun rows =>
    (((rows.filter fun row => !row.2).map fun row => foldKey py row.1).dedup).insertionSort (· ≤ ·)

/-- `tags.setdefault(column, verdict)`. -/
def setDefault (verdict : Text) (tags : List (Text × Text)) (column : Text) : List (Text × Text) :=
  if (tags.lookup column).isSome then tags else setField column verdict tags

/-- The three sources, the overlays as they could be read. -/
def overlaid (own : Option (List (Text × Text))) (inherited : List (Text × List Cell))
    (detections : List Text) : Option Tags :=
  let merged := inherited.foldl (fun merged entry => setField entry.1 sensitive merged) (own.getD [])
  let merged := detections.foldl (setDefault detected) merged
  if merged = [] ∧ own = none then none
  else some { entries := merged, inherited := inherited.map fun entry => foldKey py entry.1 }

def effectiveColumnTags (session : Session) (asset : Option Asset) : Option Tags :=
  match asset with
  | none => none
  | some asset =>
    overlaid py asset.columnTags ((inheritedSensitive py session asset).getD [])
      ((activeDetectedColumns py session).getD [])

end DataQ.Redaction
