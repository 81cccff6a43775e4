import DataQ.FlatFiles.HeadReads

/-! # The rows of a head read

A window is cut at its last newline with an even number of quote marks before it. Such a newline
ends a row or stands in a quoted field, which the parser refuses to end; a window that has none is
parsed to its last byte, and there the row that it cuts may pass for a whole one. -/

namespace DataQ.FlatFiles
open DataQ.Fallible DataQ.RecordReaders DataQ.RecordReaders.RecordReader
open DataQ.Percent (Bytes)
set_option autoImplicit false

/-! ## Where a window is cut -/

/-- A newline with an even number of quote marks before it. -/
def QuoteSafe (raw : Bytes) (i : ℕ) : Prop :=
  raw[i]? = some newline ∧ (raw.take i).count quoteMark % 2 = 0

instance (raw : Bytes) (i : ℕ) : Decidable (QuoteSafe raw i) :=
  inferInstanceAs (Decidable (_ ∧ _))

/-- The bytes have no quote-safe newline. -/
def Blind (raw : Bytes) : Prop := ∀ i, ¬ QuoteSafe raw i

theorem blind_iff {raw : Bytes} : Blind raw ↔ ∀ i < raw.length, ¬ QuoteSafe raw i := by
  constructor
  · intro h i _
    exact h i
  · intro h i hsafe
    have hin : i < raw.length := (List.getElem?_eq_some_iff.mp hsafe.1).1
    exact h i hin hsafe

instance (raw : Bytes) : Decidable (Blind raw) := decidable_of_iff _ blind_iff.symm

theorem boundaryBefore_spec (raw : Bytes) (stop : ℕ) :
    QuoteSafe raw (boundaryBefore raw stop) ∨
      boundaryBefore raw stop = raw.length ∧ ∀ i < stop, ¬ QuoteSafe raw i := by
  fun_induction boundaryBefore raw stop with
  | case1 stop hnone => exact .inr ⟨rfl, fun i hi hsafe => rfind_eq_none hnone i hi hsafe.1⟩
  | case2 stop cut hcut heven => exact .inl ⟨(rfind_eq_some hcut).2.1, heven⟩
  | case3 stop cut hcut hodd ih =>
    refine ih.imp_right fun ⟨hend, hbefore⟩ => ⟨hend, fun i hi hsafe => ?_⟩
    obtain ⟨-, -, hlast⟩ := rfind_eq_some hcut
    rcases Nat.lt_trichotomy i cut with hlt | heq | hgt
    · exact hbefore i hlt hsafe
    · rw [heq] at hsafe
      exact hodd hsafe.2
    · exact hlast i hgt hi hsafe.1

theorem rowBoundaryEnd_spec (raw : Bytes) :
    QuoteSafe raw (rowBoundaryEnd raw) ∨ rowBoundaryEnd raw = raw.length ∧ Blind raw :=
  (boundaryBefore_spec raw raw.length).imp_right fun ⟨hend, hbefore⟩ =>
    ⟨hend, blind_iff.mpr hbefore⟩

theorem rowBoundaryEnd_of_blind {raw : Bytes} (h : Blind raw) :
    rowBoundaryEnd raw = raw.length := by
  rcases rowBoundaryEnd_spec raw with hsafe | ⟨hend, -⟩
  · exact absurd hsafe (h _)
  · exact hend

/-- The bytes around a newline. -/
theorem eq_take_append_newline {raw : Bytes} {i : ℕ} (h : raw[i]? = some newline) :
    raw = raw.take i ++ newline :: raw.drop (i + 1) := by
  obtain ⟨hi, hget⟩ := List.getElem?_eq_some_iff.mp h
  calc raw = raw.take i ++ raw.drop i := (List.take_append_drop i raw).symm
    _ = raw.take i ++ newline :: raw.drop (i + 1) := by rw [List.drop_eq_getElem_cons hi, hget]

/-! ## What a parse is -/

variable {ρ ε : Type}

theorem toFrame_eq_ok {pandas : CsvParser ρ ε} {records : List ρ} {frame : Frame ρ} :
    pandas.toFrame records = .ok frame ↔ records = frame.columns :: frame.rows := by
  cases records with
  | nil => simp [CsvParser.toFrame]
  | cons columns rows =>
    obtain ⟨columns', rows'⟩ := frame
    simp [CsvParser.toFrame]

theorem readCsv_eq_ok {pandas : CsvParser ρ ε} {sep : UInt8} {n : ℕ} {raw : Bytes}
    {frame : Frame ρ} : pandas.readCsv sep (some n) raw = .ok frame ↔
      (pandas.reader sep).readFrom (pandas.reader sep).start raw (n + 1) =
        .ok (frame.columns :: frame.rows) := by
  show _ >>= _ = _ ↔ _
  rw [bind_eq_ok]
  constructor
  · rintro ⟨records, hread, hframe⟩
    rw [hread, toFrame_eq_ok.mp hframe]
  · intro hread
    exact ⟨_, hread, toFrame_eq_ok.mpr rfl⟩

/-- With `nrows` the parse of a file gives its first rows. -/
theorem readCsv_nrows {pandas : CsvParser ρ ε} {sep : UInt8} {raw : Bytes} {all : Frame ρ}
    (h : pandas.readCsv sep none raw = .ok all) (n : ℕ) :
    pandas.readCsv sep (some n) raw = .ok ⟨all.columns, all.rows.take n⟩ := by
  obtain ⟨records, hread, hframe⟩ := bind_eq_ok.mp h
  rw [toFrame_eq_ok.mp hframe] at hread
  rw [readCsv_eq_ok, readFrom_of_readAll hread, List.take_succ_cons]

/-! ## The walk -/

namespace HeadRead

/-- What the read reads from is this content. -/
structure ReadsFrom (r : HeadRead ρ ε) (content : Bytes) : Prop where
  serves : Serves r.store content
  size : r.size = content.length

variable (r : HeadRead ρ ε) (content : Bytes)

/-- What the walk sniffs of its first window. -/
def delimiter : UInt8 :=
  r.sniffDelimiter ((content.take (r.span csvHeadBytes)).take sniffBytes)

/-- `read_csv_bytes`. -/
def readCsvBytes (nrows : Option ℕ) : Except ε (Frame ρ) :=
  r.pandas.readCsv (r.sniffDelimiter (content.take sniffBytes)) nrows content

/-- A window short of the file, without a quote-safe newline, is cut inside the last row wanted, and
what is left of this row reads as a row, but not as the row that the file has there. -/
def CutMisread (w : HeadWalk) : Prop :=
  let reader := r.pandas.reader (r.delimiter content)
  let span := r.span w.window
  span < r.size ∧ Blind (content.take span) ∧
    ∃ s record, reader.cutRecord reader.start (content.take span) (r.limit + 1) = some (s, record) ∧
      reader.readFrom s (content.drop span) 1 ≠ .ok [record]

/-- What the buffer and the delimiter are at the top of the loop. -/
structure Consistent (w : HeadWalk) : Prop where
  buffered : w.buffered = content.take w.buffered.length
  short : w.buffered.length ≤ r.span w.window
  delimiter : w.delimiter = none ∧ w.window = csvHeadBytes ∨
    w.delimiter = some (r.delimiter content)

variable {r content}

theorem span_le_size (window : ℕ) : r.span window ≤ r.size := Nat.min_le_right _ _

theorem span_mono {window window' : ℕ} (h : window ≤ window') : r.span window ≤ r.span window' := by
  rw [span, span]
  cases r.cap with
  | none =>
    dsimp only
    omega
  | some cap =>
    dsimp only
    omega

/-- Whatever the cap, as long as the sample is whole. -/
theorem delimiter_eq (hr : r.ReadsFrom content) (h : ∀ cap ∈ r.cap, min sniffBytes r.size ≤ cap) :
    r.delimiter content = r.sniffDelimiter (content.take sniffBytes) := by
  have hsize := hr.size
  have hspan : sniffBytes ≤ r.span csvHeadBytes ∨ content.length ≤ r.span csvHeadBytes := by
    rw [span]
    cases hcap : r.cap with
    | none =>
      dsimp only
      simp only [sniffBytes, csvHeadBytes]
      omega
    | some cap =>
      have hbelow := h cap hcap
      dsimp only
      simp only [sniffBytes, csvHeadBytes] at hbelow ⊢
      omega
  rw [delimiter, List.take_take]
  rcases hspan with hsample | hall
  · rw [Nat.min_eq_left hsample]
  · congr 1
    rcases Nat.le_total sniffBytes (r.span csvHeadBytes) with hle | hle
    · rw [Nat.min_eq_left hle]
    · rw [Nat.min_eq_right hle, List.take_of_length_le hall, List.take_of_length_le (by omega)]

theorem extendWindow_eq (hr : r.ReadsFrom content) {w : HeadWalk} (hw : r.Consistent content w) :
    extendWindow (readRange r.store r.connType) w.buffered (r.span w.window) =
      (content.take (r.span w.window), false) := by
  have hsize := hr.size
  have hspan : r.span w.window ≤ r.size := span_le_size w.window
  have hshort := hw.short
  rw [extendWindow]
  split
  · next hle =>
    have heq : w.buffered.length = r.span w.window := by omega
    rw [← heq, ← hw.buffered]
  · next hlt =>
    have hread : readRange r.store r.connType w.buffered.length
        (r.span w.window - w.buffered.length) =
          (content.drop w.buffered.length).take (r.span w.window - w.buffered.length) :=
      readRange_serves hr.serves (by omega)
    have hjoin : w.buffered.length + (r.span w.window - w.buffered.length) = r.span w.window := by
      omega
    have hbuffer : w.buffered ++ (content.drop w.buffered.length).take
        (r.span w.window - w.buffered.length) = content.take (r.span w.window) := by
      conv_lhs => rw [hw.buffered]
      rw [List.length_take, Nat.min_eq_left (by omega), ← List.take_add, hjoin]
    dsimp only
    rw [hread, hbuffer, List.length_take, List.length_drop]
    congr 1
    exact decide_eq_false (by omega)

/-- The delimiter that a turn parses with. -/
theorem getD_delimiter {w : HeadWalk} (hw : r.Consistent content w) :
    w.delimiter.getD (r.sniffDelimiter ((content.take (r.span w.window)).take sniffBytes)) =
      r.delimiter content := by
  rcases hw.delimiter with ⟨hnone, hwindow⟩ | hsome
  · rw [hnone, hwindow]
    rfl
  · rw [hsome]
    rfl

/-- The parse of a turn. -/
def parse (r : HeadRead ρ ε) (content : Bytes) (w : HeadWalk) : Except ε (Frame ρ) :=
  windowFrame r.pandas (content.take (r.span w.window)) r.limit (decide (r.size ≤ r.span w.window))
    (r.delimiter content)

theorem turn_eq_answer (hr : r.ReadsFrom content) {w : HeadWalk} (hw : r.Consistent content w)
    {frame : Frame ρ} : r.turn w = .answer frame ↔
      r.parse content w = .ok frame ∧ (r.limit ≤ frame.rows.length ∨ r.size ≤ r.span w.window) := by
  simp only [turn, extendWindow_eq hr hw, getD_delimiter hw, Bool.false_or]
  rw [← parse]
  cases r.parse content w with
  | error e => simp
  | ok parsed =>
    simp only [decide_eq_true_eq, Except.ok.injEq]
    split
    · next hdone =>
      constructor
      · intro h
        cases h
        exact ⟨rfl, hdone⟩
      · rintro ⟨rfl, -⟩
        rfl
    · next hmore =>
      constructor
      · intro h
        split at h <;> cases h
      · rintro ⟨rfl, hdone⟩
        exact absurd hdone hmore

theorem turn_grow_consistent (hr : r.ReadsFrom content) {w next : HeadWalk}
    (hw : r.Consistent content w) (h : r.turn w = .grow next) : r.Consistent content next := by
  obtain ⟨-, -, hdouble⟩ := turn_grow h
  have hspan : r.span w.window ≤ r.span next.window := span_mono (by omega)
  have hsize := hr.size
  have hlength : (content.take (r.span w.window)).length = r.span w.window := by
    have hle : r.span w.window ≤ r.size := span_le_size w.window
    rw [List.length_take]
    omega
  simp only [turn, extendWindow_eq hr hw, getD_delimiter hw, Bool.false_or] at h
  have hnext : next.buffered = content.take (r.span w.window) ∧
      next.delimiter = some (r.delimiter content) := by
    split at h
    · cases h
    · split at h
      · cases h
      · split at h
        · cases h
        · cases h
          exact ⟨rfl, rfl⟩
  obtain ⟨hbuffered, hdelimiter⟩ := hnext
  refine ⟨?_, ?_, .inr hdelimiter⟩
  · rw [hbuffered, hlength]
  · rw [hbuffered, hlength]
    exact hspan

theorem reached_consistent (hr : r.ReadsFrom content) {w : HeadWalk} (h : r.Reached w) :
    r.Consistent content w := by
  induction h with
  | initial => exact ⟨rfl, Nat.zero_le _, .inl ⟨rfl, rfl⟩⟩
  | grow _ hturn ih => exact turn_grow_consistent hr ih hturn

theorem walk_answer {w : HeadWalk} {frame : Frame ρ} (h : r.turn w = .answer frame) :
    r.walk w = .ok frame := by
  rw [walk]
  split <;> simp_all

theorem walk_grow {w next : HeadWalk} (h : r.turn w = .grow next) : r.walk w = r.walk next := by
  rw [walk]
  split <;> simp_all

theorem walk_reached {w : HeadWalk} (h : r.Reached w) : r.csvHeadFrame = r.walk w := by
  induction h with
  | initial => rfl
  | grow _ hturn ih => rw [ih, walk_grow hturn]

/-- A walk that returns a frame has reached the turn that answers with it. -/
theorem exists_answer {w : HeadWalk} {frame : Frame ρ} (hw : r.Reached w)
    (h : r.walk w = .ok frame) : ∃ last, r.Reached last ∧ r.turn last = .answer frame := by
  fun_induction walk r w with
  | case1 w answered hturn =>
    cases h
    exact ⟨w, hw, hturn⟩
  | case2 w e hturn => cases h
  | case3 w next hturn ih => exact ih (.grow hw hturn) h

/-! ## A turn that answers -/

/-- A window cut at a quote-safe newline has the first rows of the file, where it has enough. -/
theorem readCsv_of_quoteSafe
    (hends : (r.pandas.reader (r.delimiter content)).EndsAsAt newline) {raw rest : Bytes} {cut : ℕ}
    (hsafe : QuoteSafe raw cut) {frame : Frame ρ} (hrows : r.limit ≤ frame.rows.length)
    (h : r.pandas.readCsv (r.delimiter content) (some r.limit) (raw.take cut) = .ok frame) :
    r.pandas.readCsv (r.delimiter content) (some r.limit) (raw ++ rest) = .ok frame := by
  have hall : r.limit + 1 ≤ (frame.columns :: frame.rows).length := by
    rw [List.length_cons]
    omega
  have hraw : raw ++ rest = raw.take cut ++ newline :: (raw.drop (cut + 1) ++ rest) := by
    conv_lhs => rw [eq_take_append_newline hsafe.1]
    rw [List.append_assoc, List.cons_append]
  rw [readCsv_eq_ok] at h ⊢
  rw [hraw]
  exact readFrom_append_separator hends h hall _

/-- So has a blind one, unless it cuts the last row wanted and misreads it. -/
theorem readCsv_of_blind {w : HeadWalk} (hspan : r.span w.window < r.size)
    (hblind : Blind (content.take (r.span w.window))) (hcut : ¬ r.CutMisread content w)
    {frame : Frame ρ} (hrows : r.limit ≤ frame.rows.length)
    (h : r.pandas.readCsv (r.delimiter content) (some r.limit)
      (content.take (r.span w.window)) = .ok frame) :
    r.pandas.readCsv (r.delimiter content) (some r.limit) content = .ok frame := by
  have hall : r.limit + 1 ≤ (frame.columns :: frame.rows).length := by
    rw [List.length_cons]
    omega
  have hcontent := List.take_append_drop (r.span w.window) content
  rw [readCsv_eq_ok] at h ⊢
  cases hrecord : (r.pandas.reader (r.delimiter content)).cutRecord
      (r.pandas.reader (r.delimiter content)).start (content.take (r.span w.window))
      (r.limit + 1) with
  | none =>
    have hread := readFrom_append h hall hrecord (content.drop (r.span w.window))
    rwa [hcontent] at hread
  | some cut =>
    obtain ⟨s, record⟩ := cut
    have hiff := readFrom_append_eq_iff hrecord h (content.drop (r.span w.window))
    rw [hcontent] at hiff
    rw [hiff]
    by_contra hne
    exact hcut ⟨hspan, hblind, s, record, hrecord, hne⟩

theorem answer_is_exact (hr : r.ReadsFrom content)
    (hends : (r.pandas.reader (r.delimiter content)).EndsAsAt newline) {w : HeadWalk}
    (hw : r.Consistent content w) (hcut : ¬ r.CutMisread content w) {frame : Frame ρ}
    (h : r.turn w = .answer frame) :
    r.pandas.readCsv (r.delimiter content) (some r.limit) content = .ok frame := by
  obtain ⟨hparse, hdone⟩ := (turn_eq_answer hr hw).mp h
  have hsize := hr.size
  rw [parse, windowFrame] at hparse
  by_cases heof : r.size ≤ r.span w.window
  · simp only [decide_eq_true heof, if_true, List.take_length] at hparse
    rwa [List.take_of_length_le (by omega)] at hparse
  · simp only [decide_eq_false heof, Bool.false_eq_true, if_false] at hparse
    have hrows : r.limit ≤ frame.rows.length := hdone.resolve_right heof
    rcases rowBoundaryEnd_spec (content.take (r.span w.window)) with hsafe | ⟨hend, hblind⟩
    · have hread : r.pandas.readCsv (r.delimiter content) (some r.limit)
          (content.take (r.span w.window) ++ content.drop (r.span w.window)) = .ok frame :=
        readCsv_of_quoteSafe hends hsafe hrows hparse
      rwa [List.take_append_drop] at hread
    · rw [hend, List.take_length] at hparse
      exact readCsv_of_blind (by omega) hblind hcut hrows hparse

/-- A turn with a misread row answers with it. -/
theorem turn_of_cutMisread (hr : r.ReadsFrom content) {w : HeadWalk} (hw : r.Consistent content w)
    (h : r.CutMisread content w) : ∃ frame, r.turn w = .answer frame ∧
      r.pandas.readCsv (r.delimiter content) (some r.limit) content ≠ .ok frame := by
  obtain ⟨hspan, hblind, s, record, hcut, hne⟩ := h
  obtain ⟨-, first, hread, hcount, -⟩ := readFrom_append_of_cut hcut
  obtain ⟨columns, rows, hrecords⟩ : ∃ columns rows, first ++ [record] = columns :: rows :=
    List.exists_cons_of_ne_nil (by simp)
  have hrows : rows.length = r.limit := by
    have hlength := congrArg List.length hrecords
    simp only [List.length_append, List.length_cons, List.length_nil] at hlength
    omega
  rw [hrecords] at hread
  refine ⟨⟨columns, rows⟩, (turn_eq_answer hr hw).mpr ⟨?_, .inl (le_of_eq hrows.symm)⟩, ?_⟩
  · rw [parse, windowFrame]
    simp only [decide_eq_false (Nat.not_le.mpr hspan), Bool.false_eq_true, if_false]
    rw [rowBoundaryEnd_of_blind hblind, List.take_length, readCsv_eq_ok]
    exact hread
  · intro hwhole
    have hiff := readFrom_append_eq_iff hcut hread (content.drop (r.span w.window))
    rw [List.take_append_drop] at hiff
    exact hne (hiff.mp (readCsv_eq_ok.mp hwhole))

end HeadRead

end DataQ.FlatFiles
