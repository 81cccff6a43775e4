import DataQ.Foundations.Json
import DataQ.Redaction.Classify

/-! # The redaction ladder

`services/run_service.py`: which rung masks a column, from the warehouse's tags, the suite's policy
and what the column's name and values say. -/

namespace DataQ.Redaction
set_option autoImplicit false

/-- `EffectiveColumnTags`; no map is the empty one. -/
structure Tags where
  entries : List (Text × Text) := []
  inherited : List Text := []
  deriving DecidableEq, Repr

/-- `suites.column_policy`; no policy is the empty one. -/
structure Policy where
  piiColumns : List Text := []
  identifierColumn : Option Text := none
  requireClassification : Bool := false
  deriving DecidableEq, Repr

inductive RedactionReason
  | ownTag | inheritedTag | policy | unclassified | detected | classifier | defaultMask
  deriving DecidableEq, Repr

def sensitiveTagValues : List Text :=
  ["sensitive".toList, "pii".toList, "confidential".toList, "restricted".toList, "secret".toList]

def nonSensitiveTagValues : List Text :=
  ["public".toList, "non_sensitive".toList, "nonsensitive".toList]

variable (py : Python)

def foldKey (column : Text) : Text := py.lower (pyStrip column)

def tagValue (column : Text) (tags : Tags) : Text :=
  let own := (tags.entries.lookup column).getD []
  let tag := if own ≠ [] then own else (tags.entries.lookup (foldKey py column)).getD []
  py.lower (pyStrip tag)

def tagSensitive (column : Text) (tags : Tags) : Bool :=
  sensitiveTagValues.contains (tagValue py column tags)

def tagNonSensitive (column : Text) (tags : Tags) : Bool :=
  nonSensitiveTagValues.contains (tagValue py column tags)

def detectedSensitive (column : Text) (tags : Tags) : Bool :=
  tagValue py column tags = "detected".toList

def policyPii (column : Text) (policy : Policy) : Bool :=
  (policy.piiColumns.map (foldKey py)).contains (foldKey py column)

def policyIdentifier (column : Text) (policy : Policy) : Bool :=
  match policy.identifierColumn with
  | none => false
  | some ident => ident ≠ [] && foldKey py ident = foldKey py column

def tagMaskReason (column : Text) (tags : Tags) : Option RedactionReason :=
  if tagSensitive py column tags then
    if tags.inherited.contains (foldKey py column) then some .inheritedTag else some .ownTag
  else none

def floorMaskReason (column : Text) (policy : Policy) (tags : Tags) : Option RedactionReason :=
  (tagMaskReason py column tags).or (if policyPii py column policy then some .policy else none)

def knownSensitiveReason (column : Text) (values : List Json) (policy : Policy) (tags : Tags)
    (summary : Option Json) : Option RedactionReason :=
  match floorMaskReason py column policy tags with
  | some reason => some reason
  | none =>
    if policy.requireClassification then
      if !(tagNonSensitive py column tags || policyIdentifier py column policy) then
        some .unclassified
      else if isSensitive py column values summary then some .classifier
      else none
    else if detectedSensitive py column tags && !policyIdentifier py column policy then
      some .detected
    else if isSensitive py column values summary then some .classifier
    else none

def incidentalMaskReason (column : Text) (values : List Json) (policy : Policy) (tags : Tags)
    (summary : Option Json) : Option RedactionReason :=
  match floorMaskReason py column policy tags with
  | some reason => some reason
  | none =>
    if policy.requireClassification then
      if !(tagNonSensitive py column tags || policyIdentifier py column policy) then
        some .unclassified
      else if isSensitive py column values summary then some .classifier
      else none
    else if policyIdentifier py column policy then
      if isSensitive py column values summary then some .classifier else none
    else if detectedSensitive py column tags then some .detected
    else
      match classifyColumn py column values summary with
      | (.pii, affirmative) => some (if affirmative then .classifier else .defaultMask)
      | _ => none

def knownSensitive (column : Text) (values : List Json) (policy : Policy) (tags : Tags)
    (summary : Option Json) : Bool :=
  (knownSensitiveReason py column values policy tags summary).isSome

def valueSignalDecides (column : Text) (policy : Policy) (tags : Tags) : Bool :=
  if tagSensitive py column tags || policyPii py column policy then false
  else if isSensitive py column [] none then false
  else if detectedSensitive py column tags && !policyIdentifier py column policy then false
  else if policy.requireClassification then
    tagNonSensitive py column tags || policyIdentifier py column policy
  else true

theorem floorMaskReason_isSome (column : Text) (policy : Policy) (tags : Tags) :
    (floorMaskReason py column policy tags).isSome =
      (tagSensitive py column tags || policyPii py column policy) := by
  unfold floorMaskReason tagMaskReason
  cases tagSensitive py column tags <;> cases policyPii py column policy <;>
    cases tags.inherited.contains (foldKey py column) <;> rfl

theorem valueSignal_nil : valueSignal py [] none = none := rfl

theorem not_cleared_of_detected {column : Text} {tags : Tags}
    (h : detectedSensitive py column tags = true) : tagNonSensitive py column tags = false := by
  rw [tagNonSensitive, of_decide_eq_true h]
  decide

theorem knownSensitive_eq (column : Text) (values : List Json) (policy : Policy) (tags : Tags)
    (summary : Option Json) :
    knownSensitive py column values policy tags summary =
      (!valueSignalDecides py column policy tags ||
        decide (valueSignal py values summary = some .pii)) := by
  have hfloor := floorMaskReason_isSome py column policy tags
  unfold knownSensitive knownSensitiveReason valueSignalDecides isSensitive
  rw [← hfloor, valueSignal_nil]
  cases hreason : floorMaskReason py column policy tags with
  | some reason => rfl
  | none =>
    cases hdetected : detectedSensitive py column tags with
    | false =>
      cases policy.requireClassification <;> cases policyIdentifier py column policy <;>
        cases tagNonSensitive py column tags <;>
        by_cases hname : nameSignal py column = some .pii <;>
        by_cases hvalue : valueSignal py values summary = some .pii <;> simp [hname, hvalue]
    | true =>
      rw [not_cleared_of_detected py hdetected]
      cases policy.requireClassification <;> cases policyIdentifier py column policy <;>
        by_cases hname : nameSignal py column = some .pii <;>
        by_cases hvalue : valueSignal py values summary = some .pii <;> simp [hname, hvalue]

/-- The rungs above the classifier answer alike for the tested column and for any other. -/
theorem knownSensitive_of_masked {column : Text} {values : List Json} {policy : Policy} {tags : Tags}
    {summary : Option Json} (h : knownSensitive py column values policy tags summary = true) :
    (incidentalMaskReason py column values policy tags summary).isSome = true := by
  unfold knownSensitive knownSensitiveReason at h
  unfold incidentalMaskReason
  cases hfloor : floorMaskReason py column policy tags with
  | some reason => rfl
  | none =>
    rw [hfloor] at h
    have haffirm := isSensitive_iff py column values summary
    cases hrequire : policy.requireClassification with
    | true => simpa [hrequire] using h
    | false =>
      cases hident : policyIdentifier py column policy with
      | true => simpa [hrequire, hident] using h
      | false =>
        cases hdetected : detectedSensitive py column tags with
        | true => rfl
        | false =>
          cases hsens : isSensitive py column values summary with
          | true => simp [haffirm.mp hsens]
          | false => simp [hrequire, hident, hdetected, hsens] at h

end DataQ.Redaction

/-! # Masked values

`services/run_service.py`, `datasources/sql.py`: a value with its cells masked, and the fields of a
dict that are replaced. -/

namespace DataQ.Redaction
set_option autoImplicit false

/-- `_REDACTED_VALUE`. -/
def redacted : Json := .str "<redacted>".toList

def sampleRowCap : ℕ := 20

mutual

def redactSampleValue : Json → Json
  | .obj fields => .obj (redactFields fields)
  | .arr items => .arr (redactItems items)
  | _ => redacted

def redactItems : List Json → List Json
  | [] => []
  | item :: items => redactSampleValue item :: redactItems items

def redactFields : Fields → Fields
  | [] => []
  | (key, value) :: fields => (key, redactSampleValue value) :: redactFields fields

end

theorem redactItems_eq_map (items : List Json) : redactItems items = items.map redactSampleValue := by
  induction items with
  | nil => rfl
  | cons item items ih => rw [redactItems, ih, List.map_cons]

/-- What stands before the first `\n[SQL: ` of a message, where there is one. -/
def beforeEcho : Text → Option Text
  | [] => none
  | c :: cs =>
    if "\n[SQL: ".toList.isPrefixOf (c :: cs) then some [] else (beforeEcho cs).map (c :: ·)

def stripStatementEcho (message : Text) : Text :=
  match beforeEcho message with
  | none => message
  | some head => head.rdropWhile pySpace

end DataQ.Redaction
