import DataQ.Foundations.Percent
import DataQ.Foundations.Transition

/-! # Reading an object by ranges

`datasources/flatfile.py`: `read_range` over the three stores, and `RangeReader`, a seekable file
that keeps one window of the object; over it, the file in memory that it stands for. -/

namespace DataQ.FlatFiles
open DataQ.Percent (Bytes)
open DataQ.Responses
set_option autoImplicit false

inductive StoreType
  | s3 | gcs | adlsGen2
  deriving DecidableEq

/-- How the stores answer for one object. -/
structure ObjectStore where
  /-- the bytes of a `Range` header, whose end is inclusive -/
  getObject : ℕ → ℕ → Bytes
  /-- `none` for `RequestRangeNotSatisfiable`; the end is inclusive -/
  downloadAsBytes : ℕ → ℕ → Option Bytes
  /-- an offset and a length -/
  downloadBlob : ℕ → ℕ → Bytes

/-- `read_range`. -/
def readRange (store : ObjectStore) (connType : StoreType) (start length : ℕ) : Bytes :=
  if length = 0 then []
  else
    match connType with
    | .s3 => store.getObject start (start + length - 1)
    | .gcs => (store.downloadAsBytes start (start + length - 1)).getD []
    | .adlsGen2 => store.downloadBlob start length

structure RangeReader where
  chunk : ℤ
  size : ℕ
  pos : ℕ
  window : Bytes
  windowStart : ℕ
  requests : ℕ
  deriving DecidableEq

/-- `_CHUNK`. -/
def defaultChunk : ℤ := 256 * 1024

/-- `RangeReader(..., chunk=chunk)` over an object of that size. -/
def RangeReader.new (chunk : Option ℤ) (size : ℕ) : RangeReader where
  chunk := match chunk with
    | none | some 0 => defaultChunk
    | some chunk => chunk
  size := size
  pos := 0
  window := []
  windowStart := 0
  requests := 0

inductive Whence
  | set | cur | end
  deriving DecidableEq

inductive Call
  | tell
  | seek (offset : ℤ) (whence : Whence)
  | read (size : Option ℤ)
  | readinto (buffer : Bytes)
  deriving DecidableEq

/-- What a call returns: a position, the bytes, or how many were read with the buffer after it. -/
inductive Answer
  | position (pos : ℕ)
  | bytes (data : Bytes)
  | filled (count : ℕ) (buffer : Bytes)
  deriving DecidableEq

/-- `max(0, min(pos, size))`. -/
def clamp (size : ℕ) (pos : ℤ) : ℕ := (max 0 (min pos size)).toNat

/-- Where a seek goes to. -/
def target (size pos : ℕ) (offset : ℤ) : Whence → ℤ
  | .set => offset
  | .cur => pos + offset
  | .end => size + offset

/-- How many bytes a read is to return; without a size, or with a negative one, all that remain. -/
def wanted (remaining : ℕ) : Option ℤ → ℕ
  | none => remaining
  | some size => if size < 0 then remaining else min size.toNat remaining

/-- `buffer[: len(data)] = data`. -/
def overwrite (buffer data : Bytes) : Bytes := data ++ buffer.drop data.length

/-! ## The reader -/

section Reader
variable (store : ObjectStore) (connType : StoreType)

namespace RangeReader

def seek (r : RangeReader) (offset : ℤ) (whence : Whence) : RangeReader :=
  { r with pos := clamp r.size (target r.size r.pos offset whence) }

/-- `_covers`. -/
def covers (r : RangeReader) (start length : ℕ) : Bool :=
  !r.window.isEmpty && decide (r.windowStart ≤ start) &&
    decide (start + length ≤ r.windowStart + r.window.length)

/-- `_fetch`. -/
def fetch (r : RangeReader) (start length : ℕ) : RangeReader :=
  let span := (min (max (length : ℤ) r.chunk) (r.size - start)).toNat
  let window := readRange store connType start span
  { r with
    window := window
    windowStart := start
    requests := r.requests + 1
    size := if window.length < span then start + window.length else r.size }

def read (r : RangeReader) (size : Option ℤ) : Bytes × RangeReader :=
  let want := wanted (r.size - r.pos) size
  if want = 0 then ([], r)
  else
    let r := if r.covers r.pos want then r else r.fetch store connType r.pos want
    ((r.window.drop (r.pos - r.windowStart)).take want, { r with pos := r.pos + want })

def call (r : RangeReader) : Call → Answer × RangeReader
  | .tell => (.position r.pos, r)
  | .seek offset whence => (.position (r.seek offset whence).pos, r.seek offset whence)
  | .read size => ((.bytes (r.read store connType size).1), (r.read store connType size).2)
  | .readinto buffer =>
    let (data, r) := r.read store connType (some buffer.length)
    (.filled data.length (overwrite buffer data), r)

end RangeReader

end Reader

/-! ## The file that it stands for -/

/-- An open file in memory, whose position does not leave it. -/
structure MemoryFile where
  content : Bytes
  pos : ℕ
  inside : pos ≤ content.length

theorem clamp_le (size : ℕ) (pos : ℤ) : clamp size pos ≤ size := by
  rw [clamp]
  omega

theorem wanted_le (remaining : ℕ) (size : Option ℤ) : wanted remaining size ≤ remaining := by
  unfold wanted
  split
  · exact Nat.le_refl remaining
  · split
    · exact Nat.le_refl remaining
    · exact Nat.min_le_right _ _

namespace MemoryFile

def seek (f : MemoryFile) (offset : ℤ) (whence : Whence) : MemoryFile where
  content := f.content
  pos := clamp f.content.length (target f.content.length f.pos offset whence)
  inside := clamp_le _ _

/-- The bytes from the position on, and that far on. -/
def read (f : MemoryFile) (size : Option ℤ) : Bytes × MemoryFile :=
  let count := wanted (f.content.length - f.pos) size
  ((f.content.drop f.pos).take count, {
    content := f.content
    pos := f.pos + count
    inside := by
      have hinside := f.inside
      have hcount := wanted_le (f.content.length - f.pos) size
      omega })

def call (f : MemoryFile) : Call → Answer × MemoryFile
  | .tell => (.position f.pos, f)
  | .seek offset whence => (.position (f.seek offset whence).pos, f.seek offset whence)
  | .read size => (.bytes (f.read size).1, (f.read size).2)
  | .readinto buffer =>
    let (data, f) := f.read (some buffer.length)
    (.filled data.length (overwrite buffer data), f)

end MemoryFile

/-- The stores answer with the bytes of the content that are in the range. -/
structure Serves (store : ObjectStore) (content : Bytes) : Prop where
  getObject : ∀ first last, first < content.length → first ≤ last →
    store.getObject first last = (content.drop first).take (last + 1 - first)
  downloadAsBytes : ∀ first last, first < content.length → first ≤ last →
    store.downloadAsBytes first last = some ((content.drop first).take (last + 1 - first))
  downloadBlob : ∀ offset length, offset < content.length →
    store.downloadBlob offset length = (content.drop offset).take length

/-! ## The simulation -/

/-- The window is a part of the content. -/
structure Mirrors (r : RangeReader) (f : MemoryFile) : Prop where
  size : r.size = f.content.length
  pos : r.pos = f.pos
  window : r.window = (f.content.drop r.windowStart).take r.window.length

variable {store : ObjectStore} {connType : StoreType}

theorem readRange_serves {content : Bytes} (h : Serves store content) {start length : ℕ}
    (hstart : start < content.length) :
    readRange store connType start length = (content.drop start).take length := by
  unfold readRange
  split
  · next hzero => rw [hzero, List.take_zero]
  · next hpos =>
    have hlast : start ≤ start + length - 1 := by omega
    have hcount : start + length - 1 + 1 - start = length := by omega
    cases connType with
    | s3 => rw [h.getObject _ _ hstart hlast, hcount]
    | gcs => rw [h.downloadAsBytes _ _ hstart hlast, hcount, Option.getD_some]
    | adlsGen2 => rw [h.downloadBlob _ _ hstart]

/-- A window that covers a range has its bytes. -/
theorem read_window {content window : Bytes} {windowStart start length : ℕ}
    (hwindow : window = (content.drop windowStart).take window.length)
    (hstart : windowStart ≤ start) (hend : start + length ≤ windowStart + window.length) :
    (window.drop (start - windowStart)).take length = (content.drop start).take length := by
  have hdrop : windowStart + (start - windowStart) = start := by omega
  have hlength : min length (window.length - (start - windowStart)) = length := by omega
  rw [hwindow, List.drop_take, List.drop_drop, hdrop, List.take_take, hlength]

/-- A fetch fills the window with what is there, and finds the size as it was. -/
theorem fetch_mirrors {r : RangeReader} {f : MemoryFile} (hserves : Serves store f.content)
    (h : Mirrors r f) {length : ℕ} (hpos : 0 < length) (hend : r.pos + length ≤ r.size) :
    Mirrors (r.fetch store connType r.pos length) f ∧
      r.pos + length ≤ r.pos + (r.fetch store connType r.pos length).window.length := by
  have hsize := h.size
  generalize hspan : (min (max (length : ℤ) r.chunk) (r.size - r.pos)).toNat = span
  have hlow : length ≤ span := by omega
  have hhigh : r.pos + span ≤ f.content.length := by omega
  have hread : readRange store connType r.pos span = (f.content.drop r.pos).take span :=
    readRange_serves hserves (by omega)
  have hlength : (readRange store connType r.pos span).length = span := by
    rw [hread, List.length_take, List.length_drop]
    omega
  have hfetch : r.fetch store connType r.pos length =
      { r with
        window := readRange store connType r.pos span
        windowStart := r.pos
        requests := r.requests + 1 } := by
    simp only [RangeReader.fetch, hspan, hlength, Nat.lt_irrefl, if_false]
  rw [hfetch]
  refine ⟨⟨hsize, h.pos, ?_⟩, ?_⟩
  · show readRange store connType r.pos span = (f.content.drop r.pos).take _
    rw [hlength, hread]
  · show r.pos + length ≤ r.pos + (readRange store connType r.pos span).length
    omega

theorem read_mirrors {r : RangeReader} {f : MemoryFile} (hserves : Serves store f.content)
    (h : Mirrors r f) (size : Option ℤ) :
    (r.read store connType size).1 = (f.read size).1 ∧
      Mirrors (r.read store connType size).2 (f.read size).2 := by
  have hsize := h.size
  have hpos := h.pos
  have hremaining : r.size - r.pos = f.content.length - f.pos := by omega
  have hcount := wanted_le (f.content.length - f.pos) size
  have hbytes : (f.read size).1 =
      (f.content.drop f.pos).take (wanted (f.content.length - f.pos) size) := rfl
  have hmoved : (f.read size).2.pos = f.pos + wanted (f.content.length - f.pos) size := rfl
  have hcontent : (f.read size).2.content = f.content := rfl
  rw [RangeReader.read, hremaining, hbytes]
  generalize (f.read size).2 = after at hmoved hcontent ⊢
  generalize wanted (f.content.length - f.pos) size = want at hcount hmoved ⊢
  by_cases hzero : want = 0
  · subst hzero
    refine ⟨rfl, ?_, hpos.trans hmoved.symm, ?_⟩
    · rw [hcontent]
      exact hsize
    · rw [hcontent]
      exact h.window
  · simp only [if_neg hzero]
    by_cases hcovers : r.covers r.pos want = true
    · simp only [hcovers, if_true]
      simp only [RangeReader.covers, Bool.and_eq_true, decide_eq_true_eq] at hcovers
      refine ⟨?_, by rw [hcontent]; exact hsize, ?_, by rw [hcontent]; exact h.window⟩
      · rw [read_window h.window hcovers.1.2 hcovers.2, hpos]
      · show r.pos + want = after.pos
        omega
    · simp only [hcovers, Bool.false_eq_true, if_false]
      have hend : r.pos + want ≤ r.size := by omega
      obtain ⟨hmirrors, hin⟩ := @fetch_mirrors store connType r f hserves h want (by omega) hend
      have hstart : (r.fetch store connType r.pos want).windowStart = r.pos := rfl
      have hfetched : (r.fetch store connType r.pos want).pos = r.pos := rfl
      refine ⟨?_, by rw [hcontent]; exact hmirrors.size, ?_, by
        rw [hcontent]; exact hmirrors.window⟩
      · rw [hfetched, read_window hmirrors.window (by omega) (by omega), hpos]
      · show r.pos + want = after.pos
        omega

theorem call_mirrors {r : RangeReader} {f : MemoryFile} (hserves : Serves store f.content)
    (h : Mirrors r f) (c : Call) :
    (r.call store connType c).1 = (f.call c).1 ∧
      Mirrors (r.call store connType c).2 (f.call c).2 ∧ (f.call c).2.content = f.content := by
  cases c with
  | tell => exact ⟨congrArg Answer.position h.pos, h, rfl⟩
  | seek offset whence =>
    have hseek : (r.seek offset whence).pos = (f.seek offset whence).pos := by
      rw [RangeReader.seek, MemoryFile.seek, h.size, h.pos]
    exact ⟨congrArg Answer.position hseek, ⟨h.size, hseek, h.window⟩, rfl⟩
  | read size =>
    obtain ⟨hbytes, hmirrors⟩ := @read_mirrors store connType r f hserves h size
    exact ⟨congrArg Answer.bytes hbytes, hmirrors, rfl⟩
  | readinto buffer =>
    obtain ⟨hbytes, hmirrors⟩ := @read_mirrors store connType r f hserves h (some buffer.length)
    refine ⟨?_, hmirrors, rfl⟩
    simp only [RangeReader.call, MemoryFile.call, hbytes]

theorem call_simulates (content : Bytes) (hserves : Serves store content) :
    Simulates (RangeReader.call store connType) MemoryFile.call fun r f =>
      Mirrors r f ∧ f.content = content := by
  rintro r f c ⟨hmirrors, rfl⟩
  obtain ⟨hanswer, hnext, hcontent⟩ := @call_mirrors store connType r f hserves hmirrors c
  exact ⟨hanswer, hnext, hcontent⟩

/-- A file in memory that has just been opened. -/
def MemoryFile.open (content : Bytes) : MemoryFile := ⟨content, 0, Nat.zero_le _⟩

/-- Whatever its chunk size, the reader answers every sequence of calls as the file in memory does,
and stands where it stands. -/
theorem range_reader_is_memory_file (content : Bytes) (hserves : Serves store content)
    (chunk : Option ℤ) (calls : List Call) :
    responses (RangeReader.call store connType) (RangeReader.new chunk content.length) calls =
      responses MemoryFile.call (.open content) calls ∧
    (final (RangeReader.call store connType) (RangeReader.new chunk content.length) calls).pos =
      (final MemoryFile.call (.open content) calls).pos := by
  have hnew : Mirrors (RangeReader.new chunk content.length) (.open content) := ⟨rfl, rfl, rfl⟩
  have hsimulates := @call_simulates store connType content hserves
  exact ⟨hsimulates.responses_eq ⟨hnew, rfl⟩ calls, (hsimulates.final ⟨hnew, rfl⟩ calls).1.pos⟩

/-- Stores that hold the content. -/
def held (content : Bytes) : ObjectStore where
  getObject first last := (content.drop first).take (last + 1 - first)
  downloadAsBytes first last :=
    if first < content.length then some ((content.drop first).take (last + 1 - first)) else none
  downloadBlob offset length := (content.drop offset).take length

theorem serves_held (content : Bytes) : Serves (held content) content where
  getObject _ _ _ _ := rfl
  downloadAsBytes _ _ hfirst _ := if_pos hfirst
  downloadBlob _ _ _ := rfl

theorem range_reader_is_memory_file_footer :
    let content : Bytes := [80, 65, 82, 49, 7, 7, 7, 80, 65, 82, 49]
    let calls : List Call := [.seek (-4) .end, .read none, .seek (-9) .cur, .read (some 3),
      .seek 99 .set, .read (some 1), .seek (-20) .cur, .readinto [0, 0, 0, 0, 0, 0]]
    responses (RangeReader.call (held content) .gcs) (RangeReader.new (some 2) content.length)
        calls = responses MemoryFile.call (.open content) calls ∧
    (final (RangeReader.call (held content) .gcs) (RangeReader.new (some 2) content.length)
        calls).pos = (final MemoryFile.call (.open content) calls).pos := by
  intro content calls
  exact range_reader_is_memory_file content (serves_held content) (some 2) calls

end DataQ.FlatFiles
