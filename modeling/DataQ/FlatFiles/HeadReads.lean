import DataQ.FlatFiles.RangeReads
import DataQ.Foundations.RecordReaders
import DataQ.Foundations.Text

/-! # The head of a CSV file

`datasources/flatfile.py`: the growing head read, from `row_boundary_end` to `_csv_head_frame`, and
`read_csv_bytes` over the whole file. pandas' parser is a reader of records for each delimiter. -/

namespace DataQ.FlatFiles
open DataQ.Fallible DataQ.RecordReaders
open DataQ.Percent (Bytes)
set_option autoImplicit false

def newline : UInt8 := 10

def quoteMark : UInt8 := 34

/-! ## Row boundaries -/

/-- `raw.rfind(b, 0, stop)`. -/
def rfind (b : UInt8) (raw : Bytes) : ℕ → Option ℕ
  | 0 => none
  | stop + 1 => if raw[stop]? = some b then some stop else rfind b raw stop

theorem rfind_eq_some {b : UInt8} {raw : Bytes} {stop cut : ℕ} (h : rfind b raw stop = some cut) :
    cut < stop ∧ raw[cut]? = some b ∧ ∀ i, cut < i → i < stop → raw[i]? ≠ some b := by
  induction stop with
  | zero => cases h
  | succ stop ih =>
    rw [rfind] at h
    split at h
    · next hat =>
      cases h
      exact ⟨Nat.lt_succ_self cut, hat, fun i hlow hhigh => absurd hhigh (by omega)⟩
    · next hne =>
      obtain ⟨hlt, hat, hlast⟩ := ih h
      refine ⟨by omega, hat, fun i hlow hhigh => ?_⟩
      by_cases hi : i = stop
      · rw [hi]
        exact hne
      · exact hlast i hlow (by omega)

theorem rfind_eq_none {b : UInt8} {raw : Bytes} {stop : ℕ} (h : rfind b raw stop = none) :
    ∀ i < stop, raw[i]? ≠ some b := by
  induction stop with
  | zero =>
    intro i hi
    omega
  | succ stop ih =>
    rw [rfind] at h
    split at h
    · cases h
    · next hne =>
      intro i hi
      by_cases hstop : i = stop
      · rw [hstop]
        exact hne
      · exact ih h i (by omega)

/-- The `while` of `row_boundary_end`. -/
def boundaryBefore (raw : Bytes) (stop : ℕ) : ℕ :=
  match _hcut : rfind newline raw stop with
  | none => raw.length
  | some cut =>
    if (raw.take cut).count quoteMark % 2 = 0 then cut else boundaryBefore raw cut
termination_by stop
decreasing_by exact (rfind_eq_some _hcut).1

def rowBoundaryEnd (raw : Bytes) : ℕ := boundaryBefore raw raw.length

/-! ## Parsing a window -/

inductive ReadError (ε : Type)
  | parser (e : ε)
  | flatFile (message : Text)
  deriving DecidableEq

/-- `pandas.read_csv`, with the `usecols` of the read. -/
structure CsvParser (ρ ε : Type) where
  reader : UInt8 → RecordReader UInt8 ρ ε
  /-- "No columns to parse from file" -/
  emptyData : ε

structure Frame (ρ : Type) where
  columns : ρ
  rows : List ρ
  deriving DecidableEq

section Parse
variable {ρ ε : Type}

def CsvParser.toFrame (pandas : CsvParser ρ ε) : List ρ → Except ε (Frame ρ)
  | [] => .error pandas.emptyData
  | columns :: rows => .ok ⟨columns, rows⟩

/-- `pd.read_csv(stream, sep=sep, nrows=nrows)`. -/
def CsvParser.readCsv (pandas : CsvParser ρ ε) (sep : UInt8) (nrows : Option ℕ) (raw : Bytes) :
    Except ε (Frame ρ) :=
  let reader := pandas.reader sep
  match nrows with
  | some n => reader.readFrom reader.start raw (n + 1) >>= pandas.toFrame
  | none => reader.readAll reader.start raw >>= pandas.toFrame

/-- `_window_frame`. -/
def windowFrame (pandas : CsvParser ρ ε) (buffered : Bytes) (limit : ℕ) (reachedEof : Bool)
    (delimiter : UInt8) : Except ε (Frame ρ) :=
  let stop := if reachedEof then buffered.length else rowBoundaryEnd buffered
  pandas.readCsv delimiter (some limit) (buffered.take stop)

end Parse

/-! ## Growing the window -/

/-- `_SNIFF_BYTES`. -/
def sniffBytes : ℕ := 64 * 1024

/-- `_CSV_HEAD_BYTES`. -/
def csvHeadBytes : ℕ := 1024 * 1024

/-- `_WINDOW_ESTIMATE_TAIL_LINES`. -/
def windowEstimateTailLines : ℕ := 10000

/-- `_extend_window`: the buffer, and whether the store returned less than asked. -/
def extendWindow (read : ℕ → ℕ → Bytes) (buffered : Bytes) (span : ℕ) : Bytes × Bool :=
  if span ≤ buffered.length then (buffered, false)
  else
    let asked := span - buffered.length
    let got := read buffered.length asked
    (buffered ++ got, decide (got.length < asked))

/-- The `while` of `_tail_bytes_per_row`, with the lines still wanted. -/
def tailLines (buffered : Bytes) : ℕ → ℕ → ℕ → ℕ × ℕ
  | 0, start, seen => (start, seen)
  | wanted + 1, start, seen =>
    match rfind newline buffered start with
    | none => (start, seen)
    | some prev => tailLines buffered wanted prev (seen + 1)

/-- `_tail_bytes_per_row`: the width of the last lines and their number, before the division. -/
def tailBytesPerRow (buffered : Bytes) (rows : ℕ) : Option (ℕ × ℕ) :=
  match rfind newline buffered buffered.length with
  | none => none
  | some last =>
    let wanted := min (max (rows / 2) 1) windowEstimateTailLines
    let (start, seen) := tailLines buffered wanted last 0
    if seen = 0 then none else some (last - start, seen)

/-- `_next_window`. `scaled width lines remaining` is the floating-point
`int(width / lines * remaining * _WINDOW_ESTIMATE_SLACK)`. -/
def nextWindow (scaled : ℕ → ℕ → ℕ → ℕ) (window : ℕ) (buffered : Bytes) (rows limit : ℕ) : ℕ :=
  let doubled := window * 2
  if rows = 0 then doubled
  else
    match tailBytesPerRow buffered rows with
    | none => doubled
    | some (width, lines) =>
      let remaining := limit - rows
      let projected := buffered.length + scaled width lines remaining + csvHeadBytes
      max doubled projected

theorem two_mul_le_nextWindow (scaled : ℕ → ℕ → ℕ → ℕ) (window : ℕ) (buffered : Bytes)
    (rows limit : ℕ) : 2 * window ≤ nextWindow scaled window buffered rows limit := by
  simp only [nextWindow]
  split
  · omega
  · split
    · omega
    · have hmax := Nat.le_max_left (window * 2)
      grind

/-! ## The walk -/

inductive MaxWindowBytes
  | configuredCap
  | explicit (bytes : Option ℤ)

/-- A call of `_csv_head_frame`, with what it reads from. -/
structure HeadRead (ρ ε : Type) where
  store : ObjectStore
  connType : StoreType
  /-- `object_size` -/
  size : ℕ
  pandas : CsvParser ρ ε
  sniffDelimiter : Bytes → UInt8
  scaled : ℕ → ℕ → ℕ → ℕ
  /-- `RUN_MAX_SCAN_BYTES` -/
  runMaxScanBytes : ℕ
  limit : ℕ
  maxWindowBytes : MaxWindowBytes

/-- The state at the top of the loop. -/
structure HeadWalk where
  window : ℕ
  positive : 0 < window
  buffered : Bytes
  delimiter : Option UInt8

inductive Turn (ρ ε : Type)
  | answer (frame : Frame ρ)
  | raise (e : ReadError ε)
  | grow (next : HeadWalk)

/-- Digits, the last one first, with a comma after each three: the `{cap:,}` of a message. -/
def grouped : Text → Text
  | a :: b :: c :: d :: rest => a :: b :: c :: ',' :: grouped (d :: rest)
  | digits => digits

def scanCapMessage (cap : ℕ) : Text :=
  "could not reach the requested sample within the ".toList ++
    (grouped (Nat.toDigits 10 cap).reverse).reverse ++
    ("-byte scan cap — the file may have a malformed/unterminated row, or its rows are " ++
      "wide enough that RUN_MAX_SCAN_BYTES needs raising for this target row count").toList

namespace HeadRead
variable {ρ ε : Type} (r : HeadRead ρ ε)

def cap : Option ℕ :=
  let maxWindowBytes := match r.maxWindowBytes with
    | .configuredCap => some (r.runMaxScanBytes : ℤ)
    | .explicit bytes => bytes
  match maxWindowBytes with
  | some bytes => if 0 < bytes then some bytes.toNat else none
  | none => none

def span (window : ℕ) : ℕ :=
  min (match r.cap with
    | none => window
    | some cap => min window cap) r.size

/-- The body of the `while`. -/
def turn (w : HeadWalk) : Turn ρ ε :=
  let span := r.span w.window
  let extended := extendWindow (readRange r.store r.connType) w.buffered span
  let buffered := extended.1
  let reachedEof := extended.2 || decide (r.size ≤ span)
  let delimiter := w.delimiter.getD (r.sniffDelimiter (buffered.take sniffBytes))
  match windowFrame r.pandas buffered r.limit reachedEof delimiter with
  | .error e => .raise (.parser e)
  | .ok frame =>
    if r.limit ≤ frame.rows.length ∨ reachedEof = true then .answer frame
    else
      match r.cap.filter fun cap => decide (cap ≤ span) with
      | some cap => .raise (.flatFile (scanCapMessage cap))
      | none =>
        .grow
          { window := nextWindow r.scaled w.window buffered frame.rows.length r.limit
            positive := Nat.lt_of_lt_of_le (Nat.mul_pos Nat.two_pos w.positive)
              (two_mul_le_nextWindow _ _ _ _ _)
            buffered := buffered
            delimiter := some delimiter }

variable {r}

/-- A window grows only while it is short of the file, and at least to its double. -/
theorem turn_grow {w next : HeadWalk} (h : r.turn w = .grow next) :
    r.span w.window = w.window ∧ w.window < r.size ∧ 2 * w.window ≤ next.window := by
  simp only [turn] at h
  split at h
  · cases h
  · next frame _ =>
    split at h
    · cases h
    · next hshort =>
      split at h
      · cases h
      · next hcap =>
        cases h
        have hspan : r.span w.window < r.size := by
          simp only [not_or, Bool.or_eq_true, decide_eq_true_eq] at hshort
          omega
        have hwindow : r.span w.window = w.window := by
          rw [span] at hspan ⊢
          cases hr : r.cap with
          | none =>
            simp only [hr] at hspan ⊢
            omega
          | some cap =>
            simp only [hr, Option.filter_eq_none_iff, decide_eq_true_eq, span] at hspan hcap ⊢
            have hbelow := hcap cap rfl
            omega
        exact ⟨hwindow, by omega, two_mul_le_nextWindow _ _ _ _ _⟩

variable (r)

/-- The `while`, which ends since the windows double. -/
def walk (w : HeadWalk) : Except (ReadError ε) (Frame ρ) :=
  match _hturn : r.turn w with
  | .answer frame => .ok frame
  | .raise e => .error e
  | .grow next => walk next
termination_by r.size - w.window
decreasing_by
  obtain ⟨-, hsize, hdouble⟩ := turn_grow _hturn
  have hpos := w.positive
  omega

def initial : HeadWalk := ⟨csvHeadBytes, by decide, [], none⟩

/-- `_csv_head_frame`. -/
def csvHeadFrame : Except (ReadError ε) (Frame ρ) := r.walk initial

/-- The states that the loop passes through. -/
inductive Reached : HeadWalk → Prop
  | initial : Reached initial
  | grow {w next : HeadWalk} (hw : Reached w) (h : r.turn w = .grow next) : Reached next

end HeadRead

end DataQ.FlatFiles
