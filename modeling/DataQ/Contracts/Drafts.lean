import Mathlib.Data.List.Sort
import DataQ.Foundations.Decimal
import DataQ.Runs.Vocabulary
import DataQ.Sql.Guard

/-! # Check drafts

`contracts/translate.py`: what a contract clause is translated to. A draft is a check still to be
stored; an unmapped clause is one that no check enforces. -/

namespace DataQ.Contracts
open Runs (CheckKind FailingTier)
set_option autoImplicit false

def CheckKind.text (kind : CheckKind) : Text := kind.name.toList

def checkKinds : List CheckKind :=
  [.expectation, .freshness, .volume, .schemaDrift, .anomaly, .comparison, .aggregate, .piiDrift]

/-- `DQ_DIMENSIONS`. -/
inductive Dimension
  | accuracy | completeness | consistency | integrity | timeliness | uniqueness | validity
  deriving DecidableEq, Repr

def Dimension.text : Dimension → Text
  | .accuracy => "accuracy".toList
  | .completeness => "completeness".toList
  | .consistency => "consistency".toList
  | .integrity => "integrity".toList
  | .timeliness => "timeliness".toList
  | .uniqueness => "uniqueness".toList
  | .validity => "validity".toList

def dqDimensions : List Dimension :=
  [.accuracy, .completeness, .consistency, .integrity, .timeliness, .uniqueness, .validity]

/-- The clause that a check enforces: an object of the contract, one of its properties or the
object itself, a quality rule or none, and the field of the document. -/
structure ClauseRef where
  object : Text
  property : Option Text
  ruleId : Option Text
  field : Text
  deriving DecidableEq, Repr

structure Thresholds where
  warn : Option Decimal
  fail : Option Decimal
  critical : Option Decimal
  deriving DecidableEq, Repr

def Thresholds.empty : Thresholds := ⟨none, none, none⟩

/-- `setattr(draft, f"{tier}_threshold", band)`. -/
def Thresholds.set (t : Thresholds) (tier : FailingTier) (band : Option Decimal) : Thresholds :=
  match tier with
  | .warn => { t with warn := band }
  | .fail => { t with fail := band }
  | .critical => { t with critical := band }

/-- What a check runs. -/
structure Rule where
  expectationType : Text
  engine : Text
  config : Fields
  thresholds : Thresholds
  deriving DecidableEq, Repr

/-- A declared column of a `schema_drift` baseline. -/
structure Column where
  name : Text
  type : Option Text
  deriving DecidableEq, Repr

structure CheckDraft extends Rule where
  name : Text
  kind : CheckKind
  ref : ClauseRef
  dimension : Option Dimension
  unclassified : Bool
  enabled : Bool
  baseline : Option (List Column)
  schedule : Option Text
  adoptCheckId : Option Text
  deriving DecidableEq, Repr

structure Unmapped where
  object : Option Text
  property : Option Text
  ruleId : Option Text
  field : Text
  reason : Text
  clause : Fields
  deriving DecidableEq, Repr

structure TranslatedObject where
  name : Text
  physicalName : Text
  checks : List CheckDraft
  piiColumns : List Text
  scheduleCron : Option Text
  scheduleTimezone : Text
  deriving DecidableEq, Repr

/-! ## Expectation types -/

/-- The types of `ALLOWED_EXPECTATIONS`. -/
def allowedExpectationTypes : List String :=
  ["expect_column_values_to_not_be_null", "expect_column_values_to_be_null",
    "expect_column_values_to_be_unique", "expect_column_values_to_be_between",
    "expect_column_values_to_be_in_set", "expect_column_values_to_not_be_in_set",
    "expect_column_distinct_values_to_be_in_set", "expect_column_distinct_values_to_contain_set",
    "expect_column_values_to_match_regex", "expect_column_values_to_not_match_regex",
    "expect_column_values_to_match_regex_list", "expect_column_values_to_not_match_regex_list",
    "expect_column_value_lengths_to_be_between", "expect_column_value_lengths_to_equal",
    "expect_column_values_to_match_strftime_format", "expect_column_values_to_be_json_parseable",
    "expect_column_values_to_be_of_type", "expect_column_values_to_be_in_type_list",
    "expect_compound_columns_to_be_unique",
    "expect_select_column_values_to_be_unique_within_record",
    "expect_column_pair_values_a_to_be_greater_than_b", "expect_column_pair_values_to_be_equal",
    "expect_column_pair_values_to_be_in_set", "expect_multicolumn_sum_to_equal",
    "expect_table_row_count_to_be_between"]

def isAllowed (expectationType : Text) : Bool :=
  allowedExpectationTypes.any (·.toList = expectationType)

def unbandedExpectationTypes : List String :=
  ["expect_column_distinct_values_to_be_in_set", "expect_column_distinct_values_to_contain_set"]

def isUnbanded (expectationType : Text) : Bool :=
  unbandedExpectationTypes.any (·.toList = expectationType)

def monitorExpectationType (kind : CheckKind) : Text := "monitor:".toList ++ CheckKind.text kind

def completenessTypes : List String :=
  ["expect_column_values_to_not_be_null", "expect_table_row_count_to_be_between",
    "expect_column_distinct_values_to_contain_set", "dmf:null_count", "dmf:null_percent",
    "dmf:blank_count", "dqx:is_not_null", "dqx:is_not_empty", "dqx:is_not_null_and_not_empty"]

def uniquenessTypes : List String :=
  ["expect_column_values_to_be_unique", "expect_compound_columns_to_be_unique",
    "expect_select_column_values_to_be_unique_within_record", "dmf:duplicate_count",
    "dmf:unique_count"]

def validityTypes : List String :=
  ["expect_column_values_to_be_between", "expect_column_values_to_be_in_set",
    "expect_column_values_to_not_be_in_set", "expect_column_values_to_match_regex",
    "expect_column_values_to_not_match_regex", "expect_column_values_to_match_regex_list",
    "expect_column_values_to_not_match_regex_list", "expect_column_values_to_be_json_parseable",
    "expect_column_value_lengths_to_be_between", "expect_column_value_lengths_to_equal",
    "expect_column_values_to_be_null", "expect_column_values_to_be_of_type",
    "expect_column_values_to_be_in_type_list", "expect_column_distinct_values_to_be_in_set",
    "expect_column_values_to_match_strftime_format",
    "expect_column_pair_values_a_to_be_greater_than_b", "expect_column_pair_values_to_be_equal",
    "expect_column_pair_values_to_be_in_set", "expect_multicolumn_sum_to_equal",
    "dmf:future_timestamp_percent", "dmf:accepted_values", "dqx:is_in_list", "dqx:is_in_range",
    "dqx:regex_match", "dqx:is_not_less_than", "dqx:is_not_greater_than"]

def deriveDimension (expectationType : Text) (kind : CheckKind) : Option Dimension :=
  if completenessTypes.any (·.toList = expectationType) then some .completeness
  else if uniquenessTypes.any (·.toList = expectationType) then some .uniqueness
  else if validityTypes.any (·.toList = expectationType) then some .validity
  else
    match kind with
    | .freshness => some .timeliness
    | .volume => some .completeness
    | .schemaDrift | .comparison => some .consistency
    | _ => none

/-! ## Fingerprints -/

/-- What `fingerprint` hashes: a dict is dumped with its keys sorted. -/
structure Canonical where
  type : Text
  engine : Text
  config : Json
  thresholds : Thresholds
  deriving DecidableEq, Repr

def Rule.canonical (rule : Rule) : Canonical :=
  ⟨rule.expectationType, rule.engine, (Json.obj rule.config).sorted, rule.thresholds⟩

end DataQ.Contracts
