import DataQ.FlatFiles.HeadRows

/-! # The growing head read and the whole file

When the rows of `_csv_head_frame` are the first rows of the file; and a file whose header has one
stray quote mark, which it cuts inside a row. -/

namespace DataQ.FlatFiles
open DataQ.RecordReaders DataQ.RecordReaders.RecordReader
open DataQ.Percent (Bytes)
set_option autoImplicit false

variable {ρ ε : Type}

/-- The frame is the first rows of the file exactly where no turn of the walk misreads a row that
its window cuts. These are the first of all the rows of the file, and the delimiter is the one of
`read_csv_bytes` unless the cap keeps the walk from a whole sample. -/
theorem head_is_prefix_iff {r : HeadRead ρ ε} {content : Bytes} (hr : r.ReadsFrom content)
    (hends : (r.pandas.reader (r.delimiter content)).EndsAsAt newline) :
    ((∀ frame, r.csvHeadFrame = .ok frame →
        r.pandas.readCsv (r.delimiter content) (some r.limit) content = .ok frame) ↔
      ∀ w, r.Reached w → ¬ r.CutMisread content w) ∧
    (∀ all, r.pandas.readCsv (r.delimiter content) none content = .ok all →
      r.pandas.readCsv (r.delimiter content) (some r.limit) content =
        .ok ⟨all.columns, all.rows.take r.limit⟩) ∧
    ((∀ cap ∈ r.cap, min sniffBytes r.size ≤ cap) →
      r.pandas.readCsv (r.delimiter content) (some r.limit) content =
        r.readCsvBytes content (some r.limit)) := by
  refine ⟨⟨fun hprefix w hw hcut => ?_, fun hcut frame hframe => ?_⟩, fun all hall => ?_,
    fun hsample => ?_⟩
  · have hconsistent := HeadRead.reached_consistent hr hw
    obtain ⟨frame, hturn, hne⟩ := HeadRead.turn_of_cutMisread hr hconsistent hcut
    apply hne
    apply hprefix
    rw [HeadRead.walk_reached hw, HeadRead.walk_answer hturn]
  · obtain ⟨last, hlast, hturn⟩ := HeadRead.exists_answer .initial hframe
    have hconsistent := HeadRead.reached_consistent hr hlast
    exact HeadRead.answer_is_exact hr hends hconsistent (hcut last hlast) hturn
  · exact readCsv_nrows hall r.limit
  · rw [HeadRead.delimiter_eq hr hsample, HeadRead.readCsvBytes]

/-! ## A parser -/

inductive ParserError
  | eofInsideString
  | emptyData
  deriving DecidableEq

inductive FieldMode
  | startRecord | startField | inField | inQuotedField | quoteInQuotedField
  deriving DecidableEq

/-- The fields of the row so far, and the one that is being read. -/
structure Tokens where
  mode : FieldMode
  field : Bytes
  fields : List Bytes
  deriving DecidableEq

namespace Tokens

def start : Tokens := ⟨.startRecord, [], []⟩

def push (t : Tokens) (mode : FieldMode) (b : UInt8) : Tokens :=
  { t with mode := mode, field := t.field ++ [b] }

/-- A byte that no quotes are open around. -/
def unquoted (sep : UInt8) (t : Tokens) (b : UInt8) : Tokens × Option (List Bytes) :=
  if b = newline then (start, some (t.fields ++ [t.field]))
  else if b = sep then (⟨.startField, [], t.fields ++ [t.field]⟩, none)
  else (t.push .inField b, none)

def step (sep : UInt8) (t : Tokens) (b : UInt8) : Tokens × Option (List Bytes) :=
  match t.mode with
  | .startRecord =>
    if b = newline then (t, none)
    else if b = quoteMark then ({ t with mode := .inQuotedField }, none)
    else t.unquoted sep b
  | .startField =>
    if b = quoteMark then ({ t with mode := .inQuotedField }, none) else t.unquoted sep b
  | .inField => t.unquoted sep b
  | .inQuotedField =>
    if b = quoteMark then ({ t with mode := .quoteInQuotedField }, none)
    else (t.push .inQuotedField b, none)
  | .quoteInQuotedField =>
    if b = quoteMark then (t.push .inQuotedField b, none) else t.unquoted sep b

def finish (t : Tokens) : Except ParserError (Option (List Bytes)) :=
  match t.mode with
  | .startRecord => .ok none
  | .inQuotedField => .error .eofInsideString
  | _ => .ok (some (t.fields ++ [t.field]))

end Tokens

/-- Quoted and plain fields between separators, blank lines skipped. -/
def tokenizer (sep : UInt8) : RecordReader UInt8 (List Bytes) ParserError where
  State := Tokens
  start := .start
  step t b := .ok (t.step sep b)
  finish := Tokens.finish

theorem tokenizer_endsAsAt (sep : UInt8) : (tokenizer sep).EndsAsAt newline := by
  intro t last h
  obtain ⟨mode, field, fields⟩ := t
  have hquote : newline ≠ quoteMark := by decide
  simp only [tokenizer, Tokens.finish] at h ⊢
  cases mode <;> cases h <;>
    simp [Tokens.step, Tokens.unquoted, hquote]

/-- One column of small numbers; a comma for the delimiter, in every sample. -/
def tokenized (content : Bytes) (limit cap : ℕ) : HeadRead (List Bytes) ParserError where
  store := held content
  connType := .s3
  size := content.length
  pandas := ⟨tokenizer, .emptyData⟩
  sniffDelimiter _ := 44
  scaled width lines remaining := width * remaining * 115 / (lines * 100)
  runMaxScanBytes := cap
  limit := limit
  maxWindowBytes := .configuredCap

theorem tokenized_readsFrom (content : Bytes) (limit cap : ℕ) :
    (tokenized content limit cap).ReadsFrom content := ⟨serves_held content, rfl⟩

theorem head_is_prefix_iff_quoted_newline :
    let content : Bytes := [97, 44, 98, 10, 34, 120, 10, 121, 34, 44, 49, 10, 50, 44, 51, 10]
    let r := tokenized content 1 14
    ((∀ frame, r.csvHeadFrame = .ok frame →
        r.pandas.readCsv (r.delimiter content) (some r.limit) content = .ok frame) ↔
      ∀ w, r.Reached w → ¬ r.CutMisread content w) ∧
    (∀ all, r.pandas.readCsv (r.delimiter content) none content = .ok all →
      r.pandas.readCsv (r.delimiter content) (some r.limit) content =
        .ok ⟨all.columns, all.rows.take r.limit⟩) ∧
    ((∀ cap ∈ r.cap, min sniffBytes r.size ≤ cap) →
      r.pandas.readCsv (r.delimiter content) (some r.limit) content =
        r.readCsvBytes content (some r.limit)) := by
  intro content r
  exact head_is_prefix_iff (tokenized_readsFrom content 1 14) (tokenizer_endsAsAt _)

/-- The header `a"`, a row `12`, and a cap of four bytes: the window has no quote-safe newline, and
its rows are one row `1`. -/
theorem stray_quote_cuts_a_row :
    ¬ ∀ (ρ ε : Type) (r : HeadRead ρ ε) (content : Bytes), r.ReadsFrom content →
      (r.pandas.reader (r.delimiter content)).EndsAsAt newline → ∀ frame all,
        r.csvHeadFrame = .ok frame →
        r.pandas.readCsv (r.delimiter content) none content = .ok all →
        frame.rows = all.rows.take r.limit := by
  intro h
  let content : Bytes := [97, 34, 10, 49, 50, 10]
  let r := tokenized content 1 4
  have hreads : r.ReadsFrom content := tokenized_readsFrom content 1 4
  have hblind : rowBoundaryEnd [97, 34, 10, 49] = 4 := rowBoundaryEnd_of_blind (by decide)
  have hconsistent := HeadRead.reached_consistent hreads .initial
  have hturn : r.turn HeadRead.initial = .answer ⟨[[97, 34]], [[[49]]]⟩ := by
    rw [HeadRead.turn_eq_answer hreads hconsistent]
    refine ⟨?_, .inl (Nat.le_refl 1)⟩
    have hspan : r.span HeadRead.initial.window = 4 := by decide
    rw [HeadRead.parse, hspan, windowFrame]
    show r.pandas.readCsv _ _ (List.take (rowBoundaryEnd [97, 34, 10, 49]) [97, 34, 10, 49]) = _
    rw [hblind]
    rfl
  have hframe : r.csvHeadFrame = .ok ⟨[[97, 34]], [[[49]]]⟩ := HeadRead.walk_answer hturn
  have hall : r.pandas.readCsv (r.delimiter content) none content =
      .ok ⟨[[97, 34]], [[[49, 50]]]⟩ := rfl
  have hrows := h _ _ r content hreads (tokenizer_endsAsAt _) _ _ hframe hall
  exact absurd hrows (by decide)

end DataQ.FlatFiles
