import DataQ.Foundations.JsonScanner
import DataQ.Foundations.Utf8
import Mathlib.Data.List.Forall2

/-! # A JSON array as lines

`datasources/jsonfile.py`: `_ArrayAsLines`, which reads a JSON array of objects as JSON Lines while
it comes in. Its output is that of the whole text, however the source is read and however much is
asked for. -/

namespace DataQ.FlatFiles.ArrayLines
open DataQ.Fallible DataQ.JsonScanner DataQ.RecordReaders
open DataQ.Percent (Bytes utf8)
open DataQ.Utf8 (signedReader)
set_option autoImplicit false

inductive Phase
  | opening
  | first
  | element
  | separator
  | trailer
  | done
  deriving DecidableEq, Repr

/-- `source` is what the reads of the source are going to give, and an empty read is its end; `text`
is what is decoded and not consumed. -/
structure Reader where
  source : List Bytes
  decoder : Utf8.Signed
  text : Text
  eof : Bool
  phase : Phase
  out : Bytes
  elements : ℕ
  deriving DecidableEq

inductive ReadError
  /-- `JsonFileError`. -/
  | jsonFile (message : Text)
  /-- `ValueError`, which the decoder raises of too long an `int`. -/
  | value
  /-- A loop that went on too long: there is none. -/
  | stuck
  deriving DecidableEq

def start (source : List Bytes) : Reader := ⟨source, signedReader.start, [], false, .opening, [], 0⟩

def decimal (n : ℕ) : Text := Nat.toDigits 10 n

/-- `_more`; `none` where the source has ended before. -/
def more (r : Reader) : Except ReadError (Option Reader) :=
  if r.eof then .ok none
  else if r.source.head?.getD [] = [] then
    match signedReader.finish r.decoder with
    | .error _ => notUtf8
    | .ok decoded => .ok (some { r with text := r.text ++ decoded.toList, eof := true })
  else
    match signedReader.feed r.decoder (r.source.head?.getD []) with
    | .error _ => notUtf8
    | .ok (decoder, decoded) =>
      .ok (some { r with source := r.source.tail, decoder := decoder, text := r.text ++ decoded })
where
  notUtf8 : Except ReadError (Option Reader) :=
    .error (.jsonFile "the file is not UTF-8 text".toList)

/-- How often the source can be read. -/
def Reader.reads (r : Reader) : ℕ := r.source.length + if r.eof then 0 else 1

/-- `_peek`. -/
def peek : ℕ → Reader → Except ReadError (Option Char × Reader)
  | 0, _ => .error .stuck
  | n + 1, r =>
    if skip r.text ≠ [] then .ok ((skip r.text).head?, { r with text := skip r.text })
    else
      match more { r with text := [] } with
      | .error e => .error e
      | .ok none => .ok (none, { r with text := [] })
      | .ok (some r) => peek n r

def unterminated (char : Option Char) (elements : ℕ) : ReadError :=
  match char with
  | none => .jsonFile "the JSON array is not terminated".toList
  | some _ => .jsonFile
      ("expected ',' or ']' after element ".toList ++ decimal elements ++
        " of the JSON array".toList)

/-- The loop of `_element`: the text of the element that comes next. -/
def decodeElement : ℕ → Reader → Except ReadError (Text × Reader)
  | 0, _ => .error .stuck
  | n + 1, r =>
    match rawDecode r.text with
    | .ok (_, rest) => .ok (r.text.take (r.text.length - rest.length), { r with text := rest })
    | .error .value => .error .value
    | .error .decode =>
      match more r with
      | .error e => .error e
      | .ok none => .error (.jsonFile
          ("element ".toList ++ decimal (r.elements + 1) ++
            " of the JSON array is not valid JSON".toList))
      | .ok (some r) => decodeElement n r

/-- A line of the output. -/
def lineOf (span : Text) : Text := replaceAll ['\r'] [' '] (replaceAll ['\n'] [' '] span)

def encoded (span : Text) : Bytes := utf8 (lineOf span) ++ utf8 ['\n']

/-- `_element`. -/
def element (char : Option Char) (r : Reader) : Except ReadError Reader :=
  if char = none then .error (unterminated char r.elements)
  else if char ≠ some '{' then
    .error (.jsonFile
      ("element ".toList ++ decimal (r.elements + 1) ++
        " of the JSON array is not an object — ".toList ++
        "DataQ reads an array only when every element is a flat object (one row)".toList))
  else do
    let (span, r) ← decodeElement (r.reads + 1) r
    pure { r with out := r.out ++ encoded span, elements := r.elements + 1, phase := .separator }

/-- `_step`. -/
def step (r : Reader) : Except ReadError Reader := do
  let (char, r) ← peek (r.reads + 1) r
  match r.phase with
  | .opening =>
    if char ≠ some '[' then .error (.jsonFile "the file is not a JSON array".toList)
    else pure { r with text := r.text.tail, phase := .first }
  | .first =>
    if char = some ']' then pure { r with text := r.text.tail, phase := .trailer }
    else pure { r with phase := .element }
  | .element => element char r
  | .separator =>
    if char = some ',' then pure { r with text := r.text.tail, phase := .element }
    else if char = some ']' then pure { r with text := r.text.tail, phase := .trailer }
    else .error (unterminated char r.elements)
  | _ =>
    if char ≠ none then
      .error (.jsonFile "the file has content after its top-level JSON array".toList)
    else pure { r with phase := .done }

/-- The bytes that the source has for the reads, up to its end. -/
def readBytes (source : List Bytes) : Bytes := (source.takeWhile (· ≠ [])).flatten

/-- The characters that can be left, at most. -/
def Reader.left (r : Reader) : ℕ :=
  r.text.length + if r.eof then 0 else (readBytes r.source).length

def Phase.rank : Phase → ℕ
  | .first => 2
  | .done => 0
  | _ => 1

/-- More than the steps that are left. -/
def Reader.weight (r : Reader) : ℕ := 2 * r.left + r.phase.rank

/-- The loop of `readinto`. -/
def fill : ℕ → ℕ → Reader → Except ReadError Reader
  | n, size, r =>
    if size ≤ r.out.length ∨ r.phase = .done then .ok r
    else
      match n with
      | 0 => .error .stuck
      | n + 1 =>
        match step r with
        | .error e => .error e
        | .ok r => fill n size r

/-- `readinto` of a buffer of this size. -/
def readinto (size : ℕ) (r : Reader) : Except ReadError (Bytes × Reader) := do
  let r ← fill r.weight size r
  pure (r.out.take size, { r with out := r.out.drop size })

/-- Buffers of these sizes are filled one after another. -/
def run : List ℕ → Reader → Except ReadError (Bytes × Reader)
  | [], r => .ok ([], r)
  | size :: sizes, r => do
    let (taken, r) ← readinto size r
    let (rest, r) ← run sizes r
    pure (taken ++ rest, r)

/-! ## What the file says -/

/-- The text of a file, behind a byte order mark where it has one. -/
def fileText (bytes : Bytes) : Option Text :=
  (signedReader.readAll signedReader.start bytes).toOption

/-- The file is one JSON array. -/
def IsArray (bytes : Bytes) (values : List JsonValue) : Prop :=
  ∃ text, fileText bytes = some text ∧ loads text = .ok (.array values)

/-- Nothing more comes out: a read of any size gives nothing. -/
def Complete (r : Reader) : Prop := r.phase = .done ∧ r.out = []

/-! ## Reading the source -/

/-- The text that the rest of the source is decoded to. -/
def Reader.future (r : Reader) : Option Text :=
  if r.eof then some []
  else (signedReader.readAll r.decoder (readBytes r.source)).toOption

/-- The text that is left. -/
def Reader.remaining (r : Reader) : Option Text := r.future.map (r.text ++ ·)

/-- The same state, with more of the source decoded. -/
structure Reads (r r' : Reader) (decoded : Text) : Prop where
  text : r'.text = r.text ++ decoded
  future : r.future = r'.future.map (decoded ++ ·)
  left : r'.left ≤ r.left
  reads : r'.reads < r.reads
  phase : r'.phase = r.phase
  out : r'.out = r.out
  elements : r'.elements = r.elements

theorem finish_eq_ok {decoder : Utf8.Signed} {decoded : Option Char}
    (h : signedReader.finish decoder = .ok decoded) : decoded = none := by
  cases decoder with
  | mark matched => exact (Except.ok.inj h).symm
  | body s =>
    have hfinish : Utf8.reader.finish s = .ok decoded := h
    simp only [Utf8.reader] at hfinish
    split at hfinish
    · exact (Except.ok.inj hfinish).symm
    · exact nomatch hfinish

theorem readBytes_cons {chunk : Bytes} (h : chunk ≠ []) (source : List Bytes) :
    readBytes (chunk :: source) = chunk ++ readBytes source := by
  simp [readBytes, h]

theorem more_eq_none {r : Reader} (h : more r = .ok none) : r.eof = true := by
  by_contra heof
  unfold more at h
  rw [if_neg heof] at h
  split at h
  · split at h
    · exact nomatch h
    · exact nomatch Except.ok.inj h
  · split at h
    · exact nomatch h
    · exact nomatch Except.ok.inj h

theorem more_ne_stuck {r : Reader} {e : ReadError} (h : more r = .error e) : e ≠ .stuck := by
  have hutf : ∀ e, more.notUtf8 = .error e → e ≠ .stuck := by
    rintro e he rfl
    exact nomatch Except.error.inj he
  unfold more at h
  split at h
  · exact nomatch h
  · split at h
    · split at h
      · exact hutf e h
      · exact nomatch h
    · split at h
      · exact hutf e h
      · exact nomatch h

theorem more_eq_some {r r' : Reader} (h : more r = .ok (some r')) :
    ∃ decoded, Reads r r' decoded := by
  unfold more at h
  by_cases heof : r.eof = true
  · rw [if_pos heof] at h
    exact nomatch Except.ok.inj h
  · have heof' : r.eof = false := Bool.not_eq_true _ |>.mp heof
    rw [if_neg heof] at h
    by_cases hempty : r.source.head?.getD [] = []
    · rw [if_pos hempty] at h
      have hbytes : readBytes r.source = [] := by
        cases hsource : r.source with
        | nil => rfl
        | cons chunk source =>
          rw [hsource] at hempty
          have hchunk : chunk = [] := hempty
          simp [readBytes, hchunk]
      cases hfinish : signedReader.finish r.decoder with
      | error e =>
        rw [hfinish] at h
        exact nomatch h
      | ok decoded =>
        rw [hfinish] at h
        obtain rfl := finish_eq_ok hfinish
        obtain rfl := Option.some.inj (Except.ok.inj h)
        refine ⟨[], rfl, ?_, ?_, ?_, rfl, rfl, rfl⟩
        · have hread : signedReader.readAll r.decoder [] = .ok [] := by
            change (signedReader.finish r.decoder).map Option.toList = .ok []
            rw [hfinish]
            rfl
          simp only [Reader.future, heof', hbytes, hread]
          rfl
        · simp [Reader.left, heof']
        · simp [Reader.reads, heof']
    · rw [if_neg hempty] at h
      cases hsource : r.source with
      | nil =>
        rw [hsource] at hempty
        exact absurd rfl hempty
      | cons chunk source =>
        rw [hsource] at hempty h
        have hchunk : chunk ≠ [] := hempty
        dsimp only [List.head?_cons, Option.getD_some, List.tail_cons] at h
        cases hfeed : signedReader.feed r.decoder chunk with
        | error e =>
          rw [hfeed] at h
          exact nomatch h
        | ok fed =>
          obtain ⟨decoder, decoded⟩ := fed
          rw [hfeed] at h
          obtain rfl := Option.some.inj (Except.ok.inj h)
          have hlength := RecordReader.length_feed hfeed
          refine ⟨decoded, rfl, ?_, ?_, ?_, rfl, rfl, rfl⟩
          · simp only [Reader.future, heof', Bool.false_eq_true, if_false, hsource,
              readBytes_cons hchunk, RecordReader.readAll_append hfeed]
            cases signedReader.readAll decoder (readBytes source) <;> rfl
          · simp only [Reader.left, heof', Bool.false_eq_true, if_false, hsource,
              readBytes_cons hchunk, List.length_append]
            omega
          · simp [Reader.reads, heof', hsource]

theorem Reads.remaining {r r' : Reader} {decoded : Text} (h : Reads r r' decoded) :
    r'.remaining = r.remaining := by
  unfold Reader.remaining
  rw [h.text, h.future, Option.map_map]
  congr 1
  funext text
  simp

/-! ## What the next character and the next element are -/

/-- `_peek` leaves what is behind the white space, and knows its first character. -/
structure Peeked (r : Reader) (char : Option Char) (r' : Reader) : Prop where
  text : skip r'.text = r'.text
  first : char = r'.text.head?
  ended : char = none → r'.eof = true
  remaining : r'.remaining = r.remaining.map skip
  left : r'.left ≤ r.left
  phase : r'.phase = r.phase
  out : r'.out = r.out
  elements : r'.elements = r.elements

theorem skip_append_of_ne {text : Text} (h : skip text ≠ []) (behind : Text) :
    skip (text ++ behind) = skip text ++ behind := by
  obtain ⟨white, htext, hwhite⟩ := skip_split text
  have hbegins : Begins (skip text) := by
    cases hskip : skip text with
    | nil => exact absurd hskip h
    | cons c cs =>
      refine ⟨c, cs, rfl, ?_⟩
      have hhead := List.head?_dropWhile_not blank text
      have hc : (text.dropWhile blank).head? = some c := by
        change (skip text).head? = some c
        rw [hskip]
        rfl
      rw [hc] at hhead
      simpa using hhead
  have hmap := skip_white refits_id hwhite (hbegins.append behind)
  rw [List.map_id, ← List.append_assoc, ← htext] at hmap
  exact hmap

theorem skip_append_of_eq_nil {text : Text} (h : skip text = []) (behind : Text) :
    skip (text ++ behind) = skip behind := by
  have hall : ∀ c ∈ text, blank c = true := List.dropWhile_eq_nil_iff.mp h
  exact List.dropWhile_append_of_pos hall

theorem left_text_le (r : Reader) {text : Text} (h : text.length ≤ r.text.length) :
    ({ r with text := text } : Reader).left ≤ r.left := by
  unfold Reader.left
  dsimp only
  omega

theorem peek_of_blank {r : Reader} (h : skip r.text = []) (n : ℕ) :
    peek (n + 1) r =
      match more { r with text := [] } with
      | .error e => .error e
      | .ok none => .ok (none, { r with text := [] })
      | .ok (some r) => peek n r := by
  rw [peek, if_neg (not_not_intro h)]

theorem peek_spec {n : ℕ} {r : Reader} (hn : r.reads < n) :
    (∀ e, peek n r = .error e → e ≠ .stuck) ∧
      ∀ char r', peek n r = .ok (char, r') → Peeked r char r' := by
  induction n generalizing r with
  | zero => omega
  | succ n ih =>
    by_cases hskip : skip r.text = []
    · have hpeek := peek_of_blank hskip n
      -- the white space is gone, and what is behind it is yet to be read
      have hremaining : ({ r with text := [] } : Reader).remaining.map skip =
          r.remaining.map skip := by
        unfold Reader.remaining
        rw [Option.map_map, Option.map_map]
        change r.future.map _ = r.future.map _
        congr 1
        funext behind
        exact (skip_append_of_eq_nil hskip behind).symm
      have hleft := @left_text_le r [] (Nat.zero_le r.text.length)
      rw [hpeek]
      cases hmore : more { r with text := [] } with
      | error e =>
        refine ⟨?_, by simp⟩
        rintro e' he
        obtain rfl := Except.error.inj he
        exact more_ne_stuck hmore
      | ok read =>
        cases read with
        | none =>
          refine ⟨by simp, ?_⟩
          intro char r' h
          obtain ⟨rfl, rfl⟩ := Prod.mk.inj (Except.ok.inj h)
          have heof := more_eq_none hmore
          dsimp only at heof
          refine ⟨rfl, rfl, fun _ => heof, ?_, hleft, rfl, rfl, rfl⟩
          rw [← hremaining]
          simp [Reader.remaining, Reader.future, heof, skip]
        | some r₁ =>
          obtain ⟨decoded, hreads⟩ := more_eq_some hmore
          have hlt : r₁.reads < n := by
            have hlt := hreads.reads
            change r₁.reads < r.reads at hlt
            omega
          obtain ⟨herror, hok⟩ := ih hlt
          refine ⟨herror, ?_⟩
          intro char r' h
          have hpeeked := hok char r' h
          refine ⟨hpeeked.text, hpeeked.first, hpeeked.ended, ?_, ?_, ?_, ?_, ?_⟩
          · rw [hpeeked.remaining, hreads.remaining, hremaining]
          · exact hpeeked.left.trans (hreads.left.trans hleft)
          · rw [hpeeked.phase, hreads.phase]
          · rw [hpeeked.out, hreads.out]
          · rw [hpeeked.elements, hreads.elements]
    · have hpeek : peek (n + 1) r =
          .ok ((skip r.text).head?, { r with text := skip r.text }) := by
        rw [peek, if_pos hskip]
      rw [hpeek]
      refine ⟨by simp, ?_⟩
      intro char r' h
      obtain ⟨rfl, rfl⟩ := Prod.mk.inj (Except.ok.inj h)
      refine ⟨skip_skip r.text, rfl, ?_, ?_, left_text_le r (length_skip_le r.text), rfl, rfl, rfl⟩
      · intro hnone
        rw [List.head?_eq_none_iff] at hnone
        exact absurd hnone hskip
      · unfold Reader.remaining
        rw [Option.map_map]
        change r.future.map _ = r.future.map _
        congr 1
        funext behind
        exact (skip_append_of_ne hskip behind).symm

/-- The text of an element was taken off. -/
structure Cut (r : Reader) (span : Text) (r' : Reader) : Prop where
  object : ∃ value, ObjectText span value
  remaining : r.remaining = r'.remaining.map (span ++ ·)
  left : r'.left + span.length ≤ r.left
  phase : r'.phase = r.phase
  out : r'.out = r.out
  elements : r'.elements = r.elements

theorem decodeElement_spec {n : ℕ} {r : Reader} (hn : r.reads < n)
    (hopen : r.text.head? = some '{') :
    (∀ e, decodeElement n r = .error e → e ≠ .stuck) ∧
      ∀ span r', decodeElement n r = .ok (span, r') → Cut r span r' := by
  induction n generalizing r with
  | zero => omega
  | succ n ih =>
    cases hdecode : rawDecode r.text with
    | ok decoded =>
      obtain ⟨value, rest⟩ := decoded
      have hstep : decodeElement (n + 1) r =
          .ok (r.text.take (r.text.length - rest.length), { r with text := rest }) := by
        rw [decodeElement, hdecode]
      rw [hstep]
      refine ⟨nofun, ?_⟩
      intro span r' h
      obtain ⟨rfl, rfl⟩ := Prod.mk.inj (Except.ok.inj h)
      obtain ⟨piece, htext, hobject⟩ := rawDecode_object hdecode hopen
      have hspan : r.text.take (r.text.length - rest.length) = piece := by
        rw [htext, List.length_append, Nat.add_sub_cancel]
        exact List.take_left
      rw [hspan]
      refine ⟨⟨value, hobject⟩, ?_, ?_, rfl, rfl, rfl⟩
      · unfold Reader.remaining
        rw [Option.map_map]
        change r.future.map _ = r.future.map _
        congr 1
        funext behind
        rw [htext, List.append_assoc]
        rfl
      · unfold Reader.left
        rw [htext, List.length_append]
        dsimp only
        omega
    | error fault =>
      cases fault with
      | value =>
        have hstep : decodeElement (n + 1) r = .error .value := by rw [decodeElement, hdecode]
        rw [hstep]
        refine ⟨?_, nofun⟩
        rintro e he rfl
        exact nomatch Except.error.inj he
      | decode =>
        cases hmore : more r with
        | error e =>
          have hstep : decodeElement (n + 1) r = .error e := by
            rw [decodeElement, hdecode]
            simp only [hmore]
          rw [hstep]
          refine ⟨?_, nofun⟩
          rintro e' he
          obtain rfl := Except.error.inj he
          exact more_ne_stuck hmore
        | ok read =>
          cases read with
          | none =>
            refine ⟨?_, ?_⟩
            · rintro e he rfl
              rw [decodeElement, hdecode] at he
              simp only [hmore] at he
              exact nomatch Except.error.inj he
            · intro span r' h
              rw [decodeElement, hdecode] at h
              simp only [hmore] at h
              exact nomatch h
          | some r₁ =>
            obtain ⟨decoded, hreads⟩ := more_eq_some hmore
            have hstep : decodeElement (n + 1) r = decodeElement n r₁ := by
              rw [decodeElement, hdecode]
              simp only [hmore]
            have hopen₁ : r₁.text.head? = some '{' := by
              rw [hreads.text]
              cases htext : r.text with
              | nil =>
                rw [htext] at hopen
                exact nomatch hopen
              | cons c cs =>
                rw [htext] at hopen
                exact hopen
            have hlt : r₁.reads < n := by
              have hlt := hreads.reads
              omega
            obtain ⟨herror, hok⟩ := ih hlt hopen₁
            rw [hstep]
            refine ⟨herror, ?_⟩
            intro span r' h
            have hcut := hok span r' h
            refine ⟨hcut.object, ?_, hcut.left.trans hreads.left, ?_, ?_, ?_⟩
            · rw [← hreads.remaining, hcut.remaining]
            · rw [hcut.phase, hreads.phase]
            · rw [hcut.out, hreads.out]
            · rw [hcut.elements, hreads.elements]

/-! ## One step -/

/-- From this phase on, the text goes on to its end: the values of its elements, and their texts. -/
inductive Yields : Phase → Text → List JsonValue → List Text → Prop
  | done : Yields .done [] [] []
  | trailer {text : Text} : skip text = [] → Yields .trailer text [] []
  | closed {text rest : Text} : skip text = ']' :: rest → Yields .trailer rest [] [] →
      Yields .first text [] []
  | filled {text : Text} {values : List JsonValue} {spans : List Text} :
      Yields .element text values spans → Yields .first text values spans
  | element {text span rest : Text} {value : JsonValue} {values : List JsonValue}
      {spans : List Text} : skip text = span ++ rest → ObjectText span value →
      Yields .separator rest values spans → Yields .element text (value :: values) (span :: spans)
  | comma {text rest : Text} {values : List JsonValue} {spans : List Text} :
      skip text = ',' :: rest → Yields .element rest values spans →
      Yields .separator text values spans
  | close {text rest : Text} : skip text = ']' :: rest → Yields .trailer rest [] [] →
      Yields .separator text [] []
  | opening {text rest : Text} {values : List JsonValue} {spans : List Text} :
      skip text = '[' :: rest → Yields .first rest values spans → Yields .opening text values spans

def Accounts (r : Reader) (values : List JsonValue) (spans : List Text) : Prop :=
  ∃ text, r.remaining = some text ∧ Yields r.phase text values spans

/-- What `_step` does: what is left to be read and what is put out stay the same together. -/
structure Stepped (r r' : Reader) : Prop where
  settled : r'.phase = .done → r'.remaining = some []
  weight : r'.weight < r.weight
  potential : r'.out.length + 5 * r'.left ≤ r.out.length + 5 * r.left
  accounts : ∀ values' spans', Accounts r' values' spans' → ∃ values spans,
    Accounts r values spans ∧ r.out ++ spans.flatMap encoded = r'.out ++ spans'.flatMap encoded

theorem Peeked.skip_eq {r r' : Reader} {char : Option Char} (h : Peeked r char r') {text : Text}
    (htext : r'.remaining = some text) : ∃ whole, r.remaining = some whole ∧ skip whole = text := by
  have hskip := h.remaining
  rw [htext] at hskip
  exact Option.map_eq_some_iff.mp hskip.symm

/-- The character that was seen is consumed. -/
theorem consumed {r : Reader} {c : Char} (h : r.text.head? = some c) (phase : Phase) :
    r.remaining = ({ r with text := r.text.tail, phase := phase } : Reader).remaining.map (c :: ·) ∧
      ({ r with text := r.text.tail, phase := phase } : Reader).left + 1 ≤ r.left := by
  have htext : r.text = c :: r.text.tail := List.eq_cons_of_mem_head? h
  constructor
  · unfold Reader.remaining
    rw [Option.map_map]
    change r.future.map _ = r.future.map _
    congr 1
    funext behind
    rw [htext]
    rfl
  · have hlength : r.text.length = r.text.tail.length + 1 := congrArg List.length htext
    unfold Reader.left
    dsimp only
    omega

/-- A character is consumed on the way from one phase to another. -/
theorem stepped_of_consumed {r r₁ : Reader} {c : Char} (phase : Phase)
    (hpeeked : Peeked r (some c) r₁) (hphase : phase ≠ .done)
    (hrank : phase.rank < r.phase.rank + 2)
    (hyields : ∀ text rest values spans, skip text = c :: rest → Yields phase rest values spans →
      Yields r.phase text values spans) :
    Stepped r { r₁ with text := r₁.text.tail, phase := phase } := by
  obtain ⟨hremaining, hleft⟩ := consumed hpeeked.first.symm phase
  have hless := hpeeked.left
  refine ⟨fun h => absurd h hphase, ?_, ?_, ?_⟩
  · unfold Reader.weight
    dsimp only
    omega
  · have hout : r₁.out.length = r.out.length := congrArg List.length hpeeked.out
    dsimp only
    omega
  · rintro values spans ⟨rest, hrest, hfrom⟩
    rw [hrest] at hremaining
    obtain ⟨whole, hwhole, hskip⟩ := hpeeked.skip_eq hremaining
    refine ⟨values, spans, ⟨whole, hwhole, hyields whole rest values spans hskip hfrom⟩, ?_⟩
    dsimp only
    rw [hpeeked.out]

theorem utf8_length (text : Text) : (utf8 text).length ≤ 4 * text.length := by
  induction text with
  | nil => exact Nat.le_refl 0
  | cons c cs ih =>
    have hone : (String.utf8EncodeChar c).length ≤ 4 := by
      rw [String.length_utf8EncodeChar]
      exact Char.utf8Size_le_four c
    rw [Percent.utf8_cons, List.length_append, List.length_cons]
    omega

/-- A line end becomes a space. -/
def fold (c : Char) : Char := if c = '\n' ∨ c = '\r' then ' ' else c

theorem refits_fold : Refits fold := by
  intro c
  unfold fold
  by_cases hc : c = '\n' ∨ c = '\r'
  · exact .inr ⟨hc, if_pos hc⟩
  · exact .inl (if_neg hc)

theorem lineOf_eq (span : Text) : lineOf span = span.map fold := by
  unfold lineOf
  rw [replaceAll_single, replaceAll_single]
  induction span with
  | nil => rfl
  | cons c cs ih =>
    rw [List.flatMap_cons, List.flatMap_append, ih, List.map_cons]
    by_cases hline : c = '\n'
    · subst hline
      rfl
    · by_cases hreturn : c = '\r'
      · subst hreturn
        rfl
      · simp [fold, hline, hreturn]

theorem encoded_length (span : Text) : (encoded span).length ≤ 4 * span.length + 1 := by
  have hline := utf8_length (lineOf span)
  rw [lineOf_eq, List.length_map] at hline
  unfold encoded
  rw [List.length_append, lineOf_eq]
  have hend : (utf8 ['\n']).length = 1 := by decide
  omega

theorem unterminated_ne_stuck (char : Option Char) (n : ℕ) : unterminated char n ≠ .stuck := by
  cases char <;> exact nofun

theorem element_spec {r r₁ : Reader} {char : Option Char} (hpeeked : Peeked r char r₁)
    (hphase : r.phase = .element) :
    (∀ e, element char r₁ = .error e → e ≠ .stuck) ∧
      ∀ r', element char r₁ = .ok r' → Stepped r r' := by
  unfold element
  by_cases hnone : char = none
  · rw [if_pos hnone]
    refine ⟨?_, nofun⟩
    intro e he
    obtain rfl := Except.error.inj he
    exact unterminated_ne_stuck _ _
  · rw [if_neg hnone]
    by_cases hopen : char = some '{'
    · rw [if_neg (by simp [hopen])]
      have hhead : r₁.text.head? = some '{' := hpeeked.first.symm.trans hopen
      obtain ⟨herror, hok⟩ := decodeElement_spec (Nat.lt_succ_self r₁.reads) hhead
      constructor
      · intro e he
        cases hdecode : decodeElement (r₁.reads + 1) r₁ with
        | error e' =>
          rw [hdecode] at he
          obtain rfl := Except.error.inj he
          exact herror e' hdecode
        | ok cut =>
          rw [hdecode] at he
          exact nomatch he
      · intro r' h
        obtain ⟨⟨span, r₂⟩, hdecode, hmk⟩ := bind_eq_ok.mp h
        obtain rfl := Except.ok.inj hmk
        have hcut := hok span r₂ hdecode
        obtain ⟨value, hobject⟩ := hcut.object
        have hleft : r₂.left + span.length ≤ r.left := hcut.left.trans hpeeked.left
        have hspan : 1 ≤ span.length := by
          obtain ⟨c, cs, rfl, -⟩ := hobject.begins
          exact Nat.succ_le_succ (Nat.zero_le _)
        have hout : r₂.out = r.out := hcut.out.trans hpeeked.out
        refine ⟨nofun, ?_, ?_, ?_⟩
        · change 2 * r₂.left + 1 < 2 * r.left + r.phase.rank
          rw [hphase]
          change 2 * r₂.left + 1 < 2 * r.left + 1
          omega
        · change (r₂.out ++ encoded span).length + 5 * r₂.left ≤ r.out.length + 5 * r.left
          have hline := encoded_length span
          rw [List.length_append, hout]
          omega
        · rintro values spans ⟨rest, hrest, hfrom⟩
          have hrest₂ : r₂.remaining = some rest := hrest
          have hbefore := hcut.remaining
          rw [hrest₂] at hbefore
          obtain ⟨whole, hwhole, hskip⟩ := hpeeked.skip_eq hbefore
          refine ⟨value :: values, span :: spans, ⟨whole, hwhole, ?_⟩, ?_⟩
          · rw [hphase]
            exact .element hskip hobject hfrom
          · dsimp only
            rw [hout, List.flatMap_cons, List.append_assoc]
    · rw [if_pos hopen]
      refine ⟨?_, nofun⟩
      rintro e he rfl
      exact nomatch Except.error.inj he

theorem step_of_peek {r r₁ : Reader} {char : Option Char}
    (hpeek : peek (r.reads + 1) r = .ok (char, r₁)) :
    step r =
      match r₁.phase with
      | .opening =>
        if char ≠ some '[' then .error (.jsonFile "the file is not a JSON array".toList)
        else .ok { r₁ with text := r₁.text.tail, phase := .first }
      | .first =>
        if char = some ']' then .ok { r₁ with text := r₁.text.tail, phase := .trailer }
        else .ok { r₁ with phase := .element }
      | .element => element char r₁
      | .separator =>
        if char = some ',' then .ok { r₁ with text := r₁.text.tail, phase := .element }
        else if char = some ']' then .ok { r₁ with text := r₁.text.tail, phase := .trailer }
        else .error (unterminated char r₁.elements)
      | _ =>
        if char ≠ none then
          .error (.jsonFile "the file has content after its top-level JSON array".toList)
        else .ok { r₁ with phase := .done } := by
  unfold step
  rw [hpeek]
  rfl

theorem step_spec {r : Reader} (hdone : r.phase ≠ .done) :
    (∀ e, step r = .error e → e ≠ .stuck) ∧ ∀ r', step r = .ok r' → Stepped r r' := by
  obtain ⟨herror, hok⟩ := peek_spec (Nat.lt_succ_self r.reads)
  cases hpeek : peek (r.reads + 1) r with
  | error e =>
    have hstep : step r = .error e := by
      unfold step
      rw [hpeek]
      rfl
    rw [hstep]
    refine ⟨?_, nofun⟩
    intro e' he
    obtain rfl := Except.error.inj he
    exact herror e hpeek
  | ok seen =>
    obtain ⟨char, r₁⟩ := seen
    have hpeeked := hok char r₁ hpeek
    rw [step_of_peek hpeek, hpeeked.phase]
    cases hphase : r.phase with
    | opening =>
      dsimp only
      by_cases hchar : char = some '['
      · subst hchar
        rw [if_neg (by simp)]
        refine ⟨nofun, ?_⟩
        intro r' h
        obtain rfl := Except.ok.inj h
        apply stepped_of_consumed .first hpeeked nofun (by rw [hphase]; decide)
        intro text rest values spans hskip hfrom
        rw [hphase]
        exact .opening hskip hfrom
      · rw [if_pos hchar]
        refine ⟨?_, nofun⟩
        rintro e he rfl
        exact nomatch Except.error.inj he
    | first =>
      dsimp only
      by_cases hchar : char = some ']'
      · subst hchar
        rw [if_pos rfl]
        refine ⟨nofun, ?_⟩
        intro r' h
        obtain rfl := Except.ok.inj h
        apply stepped_of_consumed .trailer hpeeked nofun (by rw [hphase]; decide)
        intro text rest values spans hskip hfrom
        rw [hphase]
        cases hfrom with
        | trailer hend => exact .closed hskip (.trailer hend)
      · rw [if_neg hchar]
        refine ⟨nofun, ?_⟩
        intro r' h
        obtain rfl := Except.ok.inj h
        have hless := hpeeked.left
        refine ⟨nofun, ?_, ?_, ?_⟩
        · change 2 * r₁.left + 1 < 2 * r.left + r.phase.rank
          rw [hphase]
          change 2 * r₁.left + 1 < 2 * r.left + 2
          omega
        · change r₁.out.length + 5 * r₁.left ≤ r.out.length + 5 * r.left
          rw [hpeeked.out]
          omega
        · rintro values spans ⟨rest, hrest, hfrom⟩
          obtain ⟨whole, hwhole, hskip⟩ := hpeeked.skip_eq hrest
          refine ⟨values, spans, ⟨whole, hwhole, ?_⟩, by rw [← hpeeked.out]⟩
          rw [hphase]
          cases hfrom with
          | element hspan hobject hnext =>
            refine .filled (.element ?_ hobject hnext)
            rw [← hspan, ← hskip, skip_skip]
    | element => exact element_spec hpeeked hphase
    | separator =>
      dsimp only
      by_cases hcomma : char = some ','
      · subst hcomma
        rw [if_pos rfl]
        refine ⟨nofun, ?_⟩
        intro r' h
        obtain rfl := Except.ok.inj h
        apply stepped_of_consumed .element hpeeked nofun (by rw [hphase]; decide)
        intro text rest values spans hskip hfrom
        rw [hphase]
        exact .comma hskip hfrom
      · rw [if_neg hcomma]
        by_cases hclose : char = some ']'
        · subst hclose
          rw [if_pos rfl]
          refine ⟨nofun, ?_⟩
          intro r' h
          obtain rfl := Except.ok.inj h
          apply stepped_of_consumed .trailer hpeeked nofun (by rw [hphase]; decide)
          intro text rest values spans hskip hfrom
          rw [hphase]
          cases hfrom with
          | trailer hend => exact .close hskip (.trailer hend)
        · rw [if_neg hclose]
          refine ⟨?_, nofun⟩
          intro e he
          obtain rfl := Except.error.inj he
          exact unterminated_ne_stuck _ _
    | done => exact absurd hphase hdone
    | trailer =>
      dsimp only
      by_cases hchar : char = none
      · rw [if_neg (not_not_intro hchar)]
        refine ⟨nofun, ?_⟩
        intro r' h
        obtain rfl := Except.ok.inj h
        have hempty : r₁.text = [] := List.head?_eq_none_iff.mp (hpeeked.first.symm.trans hchar)
        have hend : r₁.remaining = some [] := by
          simp [Reader.remaining, Reader.future, hpeeked.ended hchar, hempty]
        have hless := hpeeked.left
        refine ⟨fun _ => hend, ?_, ?_, ?_⟩
        · change 2 * r₁.left + 0 < 2 * r.left + r.phase.rank
          rw [hphase]
          change 2 * r₁.left + 0 < 2 * r.left + 1
          omega
        · change r₁.out.length + 5 * r₁.left ≤ r.out.length + 5 * r.left
          rw [hpeeked.out]
          omega
        · rintro values spans ⟨rest, hrest, hfrom⟩
          obtain rfl := Option.some.inj (hend.symm.trans hrest)
          obtain ⟨whole, hwhole, hskip⟩ := hpeeked.skip_eq hend
          cases hfrom with
          | done =>
            refine ⟨[], [], ⟨whole, hwhole, ?_⟩, by rw [← hpeeked.out]⟩
            rw [hphase]
            exact .trailer hskip
      · rw [if_pos hchar]
        refine ⟨?_, nofun⟩
        rintro e he rfl
        exact nomatch Except.error.inj he

/-! ## Whole reads -/

/-- The end is reached with nothing left. -/
def Settled (r : Reader) : Prop := r.phase = .done → r.remaining = some []

/-- What any number of steps does, with some bytes of the output taken. -/
structure Advances (r : Reader) (taken : Bytes) (r' : Reader) : Prop where
  settled : Settled r'
  potential : taken.length + r'.out.length + 5 * r'.left ≤ r.out.length + 5 * r.left
  accounts : ∀ values' spans', Accounts r' values' spans' → ∃ values spans,
    Accounts r values spans ∧
      r.out ++ spans.flatMap encoded = taken ++ r'.out ++ spans'.flatMap encoded

theorem Advances.refl {r : Reader} (h : Settled r) : Advances r [] r :=
  ⟨h, by simp, fun values spans hfrom => ⟨values, spans, hfrom, rfl⟩⟩

theorem Advances.trans {r r₁ r₂ : Reader} {taken₁ taken₂ : Bytes} (h₁ : Advances r taken₁ r₁)
    (h₂ : Advances r₁ taken₂ r₂) : Advances r (taken₁ ++ taken₂) r₂ := by
  refine ⟨h₂.settled, ?_, ?_⟩
  · have hfirst := h₁.potential
    have hsecond := h₂.potential
    rw [List.length_append]
    omega
  · intro values spans hfrom
    obtain ⟨values₁, spans₁, hfrom₁, hout₁⟩ := h₂.accounts values spans hfrom
    obtain ⟨values₀, spans₀, hfrom₀, hout₀⟩ := h₁.accounts values₁ spans₁ hfrom₁
    refine ⟨values₀, spans₀, hfrom₀, ?_⟩
    rw [hout₀, List.append_assoc, hout₁]
    simp

theorem Stepped.advances {r r' : Reader} (h : Stepped r r') : Advances r [] r' :=
  ⟨h.settled, by simpa using h.potential, fun values spans hfrom => h.accounts values spans hfrom⟩

theorem fill_spec {n size : ℕ} {r : Reader} (hn : r.weight ≤ n) (hr : Settled r) :
    (∀ e, fill n size r = .error e → e ≠ .stuck) ∧
      ∀ r', fill n size r = .ok r' →
        Advances r [] r' ∧ (size ≤ r'.out.length ∨ r'.phase = .done) := by
  induction n generalizing r with
  | zero =>
    have hdone : r.phase = .done := by
      have hrank : r.phase.rank = 0 := by
        unfold Reader.weight at hn
        omega
      cases hphase : r.phase <;> rw [hphase] at hrank <;> first | rfl | exact nomatch hrank
    rw [fill, if_pos (.inr hdone)]
    refine ⟨nofun, ?_⟩
    intro r' h
    obtain rfl := Except.ok.inj h
    exact ⟨.refl hr, .inr hdone⟩
  | succ n ih =>
    rw [fill]
    by_cases hfull : size ≤ r.out.length ∨ r.phase = .done
    · rw [if_pos hfull]
      refine ⟨nofun, ?_⟩
      intro r' h
      obtain rfl := Except.ok.inj h
      exact ⟨.refl hr, hfull⟩
    · rw [if_neg hfull]
      obtain ⟨herror, hok⟩ := step_spec fun hdone => hfull (.inr hdone)
      cases hstep : step r with
      | error e =>
        refine ⟨?_, nofun⟩
        intro e' he
        obtain rfl := Except.error.inj he
        exact herror e hstep
      | ok r₁ =>
        have hstepped := hok r₁ hstep
        have hweight := hstepped.weight
        obtain ⟨herror₁, hok₁⟩ := ih (by omega) hstepped.settled
        refine ⟨herror₁, ?_⟩
        intro r' h
        obtain ⟨hadvances, hfull₁⟩ := hok₁ r' h
        exact ⟨hstepped.advances.trans hadvances, hfull₁⟩

theorem readinto_spec {size : ℕ} {r : Reader} (hr : Settled r) :
    (∀ e, readinto size r = .error e → e ≠ .stuck) ∧
      ∀ taken r', readinto size r = .ok (taken, r') →
        Advances r taken r' ∧ (0 < size → taken = [] → Complete r') := by
  obtain ⟨herror, hok⟩ := @fill_spec _ size _ (Nat.le_refl r.weight) hr
  unfold readinto
  cases hfill : fill r.weight size r with
  | error e =>
    refine ⟨?_, nofun⟩
    intro e' he
    obtain rfl := Except.error.inj he
    exact herror e hfill
  | ok r₁ =>
    refine ⟨nofun, ?_⟩
    intro taken r' h
    obtain ⟨rfl, rfl⟩ := Prod.mk.inj (Except.ok.inj h)
    obtain ⟨hadvances, hfull⟩ := hok r₁ hfill
    have hlength : (r₁.out.take size).length + (r₁.out.drop size).length = r₁.out.length := by
      rw [← List.length_append, List.take_append_drop]
    refine ⟨⟨hadvances.settled, ?_, ?_⟩, ?_⟩
    · have hless := hadvances.potential
      change _ + (r₁.out.drop size).length + 5 * r₁.left ≤ _
      rw [hlength]
      simpa using hless
    · intro values spans hfrom
      obtain ⟨values₀, spans₀, hfrom₀, hout₀⟩ := hadvances.accounts values spans hfrom
      refine ⟨values₀, spans₀, hfrom₀, ?_⟩
      rw [hout₀, List.take_append_drop]
      rfl
    · intro hsize htaken
      have hout : r₁.out = [] := by
        obtain hzero | hout := List.take_eq_nil_iff.mp htaken
        · omega
        · exact hout
      refine ⟨?_, by simp [hout]⟩
      obtain hlong | hdone := hfull
      · rw [hout, List.length_nil] at hlong
        omega
      · exact hdone

theorem readinto_complete {r : Reader} (h : Complete r) (size : ℕ) :
    readinto size r = .ok ([], r) := by
  have hfill : fill r.weight size r = .ok r := by
    unfold fill
    exact if_pos (.inr h.1)
  unfold readinto
  rw [hfill]
  cases r
  obtain ⟨hdone, hout⟩ := h
  dsimp only at hdone hout
  subst hout
  simp [bind, Except.bind, pure, Except.pure]

theorem run_complete {r : Reader} (h : Complete r) (sizes : List ℕ) :
    run sizes r = .ok ([], r) := by
  induction sizes with
  | nil => rfl
  | cons size sizes ih =>
    rw [run, readinto_complete h]
    change (run sizes r >>= fun x => _) = _
    rw [ih]
    rfl

theorem run_spec {sizes : List ℕ} {r : Reader} (hr : Settled r) :
    (∀ e, run sizes r = .error e → e ≠ .stuck) ∧
      ∀ out r', run sizes r = .ok (out, r') → Advances r out r' ∧
        ((∀ size ∈ sizes, 0 < size) → Complete r' ∨ sizes.length ≤ out.length) := by
  induction sizes generalizing r with
  | nil =>
    refine ⟨nofun, ?_⟩
    intro out r' h
    obtain ⟨rfl, rfl⟩ := Prod.mk.inj (Except.ok.inj h)
    exact ⟨.refl hr, fun _ => .inr (Nat.le_refl 0)⟩
  | cons size sizes ih =>
    obtain ⟨herror, hok⟩ := @readinto_spec size r hr
    rw [run]
    cases hread : readinto size r with
    | error e =>
      refine ⟨?_, nofun⟩
      intro e' he
      obtain rfl := Except.error.inj he
      exact herror e hread
    | ok read =>
      obtain ⟨taken, r₁⟩ := read
      obtain ⟨hadvances, hcomplete⟩ := hok taken r₁ hread
      obtain ⟨herror₁, hok₁⟩ := ih hadvances.settled
      cases hrun : run sizes r₁ with
      | error e =>
        refine ⟨?_, ?_⟩
        · intro e' he
          change (run sizes r₁ >>= fun x => _) = _ at he
          rw [hrun] at he
          obtain rfl := Except.error.inj he
          exact herror₁ e hrun
        · intro out r' h
          change (run sizes r₁ >>= fun x => _) = _ at h
          rw [hrun] at h
          exact nomatch h
      | ok rest =>
        obtain ⟨behind, r₂⟩ := rest
        obtain ⟨hadvances₁, hprogress⟩ := hok₁ behind r₂ hrun
        refine ⟨?_, ?_⟩
        · intro e he
          change (run sizes r₁ >>= fun x => _) = _ at he
          rw [hrun] at he
          exact nomatch he
        · intro out r' h
          change (run sizes r₁ >>= fun x => _) = _ at h
          rw [hrun] at h
          obtain ⟨rfl, rfl⟩ := Prod.mk.inj (Except.ok.inj h)
          refine ⟨hadvances.trans hadvances₁, ?_⟩
          intro hsizes
          obtain ⟨hsize, hothers⟩ := List.forall_mem_cons.mp hsizes
          by_cases htaken : taken = []
          · -- a read that gave nothing is the last that could
            have hrest := run_complete (hcomplete hsize htaken) sizes
            obtain ⟨-, rfl⟩ := Prod.mk.inj (Except.ok.inj (hrun.symm.trans hrest))
            exact .inl (hcomplete hsize htaken)
          · have hpos := List.length_pos_iff.mpr htaken
            refine (hprogress hothers).imp_right ?_
            intro hlong
            rw [List.length_append, List.length_cons]
            dsimp only
            omega

/-! ## The whole text -/

/-- What the scanner makes of the text from this phase on. -/
def Scans : Phase → Text → List JsonValue → Prop
  | .opening, text, values => loads text = .ok (.array values)
  | .first, text, values => ∃ rest, skip rest = [] ∧ ∀ n, text.length < n →
      bracketed ']' .array (scanItems n) text = .ok (.array values, rest)
  | .element, text, values => ∃ rest, skip rest = [] ∧ ∀ n, (skip text).length < n →
      scanItems n (skip text) = .ok (values, rest) ∧ (skip text).head? ≠ some ']'
  | .separator, text, values => ∃ rest, skip rest = [] ∧ ∀ n, (skip text).length < n →
      ∃ d behind, skip text = d :: behind ∧
        (d = ']' ∧ values = [] ∧ rest = behind ∨
          d = ',' ∧ scanItems n (skip behind) = .ok (values, rest))
  | _, text, values => skip text = [] ∧ values = []

theorem Yields.scans {phase : Phase} {text : Text} {values : List JsonValue} {spans : List Text}
    (h : Yields phase text values spans) :
    Scans phase text values ∧ List.Forall₂ ObjectText spans values := by
  induction h with
  | done => exact ⟨⟨rfl, rfl⟩, .nil⟩
  | trailer hend => exact ⟨⟨hend, rfl⟩, .nil⟩
  | closed hskip _ ih =>
    obtain ⟨⟨hend, -⟩, -⟩ := ih
    refine ⟨⟨_, hend, ?_⟩, .nil⟩
    intro n _
    unfold bracketed
    rw [hskip]
    exact if_pos rfl
  | @filled text values spans _ ih =>
    obtain ⟨⟨rest, hend, hscan⟩, hspans⟩ := ih
    refine ⟨⟨rest, hend, ?_⟩, hspans⟩
    intro n hn
    obtain ⟨hitems, hother⟩ := hscan n (Nat.lt_of_le_of_lt (length_skip_le text) hn)
    unfold bracketed
    rw [if_neg hother, hitems]
    rfl
  | @element text span rest value values spans hskip hobject _ ih =>
    obtain ⟨⟨last, hend, hscan⟩, hspans⟩ := ih
    refine ⟨⟨last, hend, ?_⟩, .cons hobject hspans⟩
    intro n hn
    obtain ⟨n, rfl⟩ : ∃ k, n = k + 1 := ⟨n - 1, by omega⟩
    have hlength : span.length + rest.length < n + 1 := by
      rw [hskip, List.length_append] at hn
      exact hn
    have hopened : span ≠ [] := by
      obtain ⟨c, cs, rfl, -⟩ := hobject.begins
      exact List.cons_ne_nil c cs
    have hrest := length_skip_le rest
    have hone := List.length_pos_iff.mpr hopened
    obtain ⟨d, behind, hnext, hlast⟩ := hscan n (by omega)
    have hlonger : 1 ≤ (skip rest).length := by
      rw [hnext]
      exact Nat.succ_le_succ (Nat.zero_le _)
    have hitem : scanOnce n (span ++ rest) = .ok (value, rest) := by
      have hread := hobject.scanned id refits_id rest n (by omega)
      rwa [List.map_id] at hread
    rw [hskip]
    constructor
    · apply scanItems_eq_ok.mpr
      refine ⟨value, rest, d, behind, hitem, hnext, ?_⟩
      obtain ⟨hclose, rfl, rfl⟩ | ⟨hcomma, hothers⟩ := hlast
      · exact .inl ⟨hclose, rfl, rfl⟩
      · exact .inr ⟨hcomma, values, hothers, rfl⟩
    · rw [List.head?_append_of_ne_nil _ hopened, hobject.opened]
      decide
  | @comma text rest values spans hskip _ ih =>
    obtain ⟨⟨last, hend, hscan⟩, hspans⟩ := ih
    refine ⟨⟨last, hend, ?_⟩, hspans⟩
    intro n hn
    refine ⟨',', rest, hskip, .inr ⟨rfl, (hscan n ?_).1⟩⟩
    have hless := length_skip_le rest
    rw [hskip, List.length_cons] at hn
    omega
  | close hskip _ ih =>
    obtain ⟨⟨hend, -⟩, -⟩ := ih
    exact ⟨⟨_, hend, fun _ _ => ⟨']', _, hskip, .inl ⟨rfl, rfl, rfl⟩⟩⟩, .nil⟩
  | @opening text rest values spans hskip _ ih =>
    obtain ⟨⟨last, hend, hscan⟩, hspans⟩ := ih
    refine ⟨?_, hspans⟩
    change loads text = .ok (.array values)
    have hdecode : rawDecode ('[' :: rest) = .ok (.array values, last) := by
      unfold rawDecode
      rw [scanOnce, if_neg (by decide), if_neg (by decide), if_pos rfl]
      exact hscan _ (Nat.lt_succ_self _)
    unfold loads
    rw [hskip, hdecode]
    change (if skip last = [] then _ else _) = _
    rw [if_pos hend]

theorem lineOf_loads {span : Text} {value : JsonValue} (h : ObjectText span value) :
    loads (lineOf span) = .ok value := by
  rw [lineOf_eq]
  exact h.loads refits_fold

theorem newline_not_mem_lineOf (span : Text) : '\n' ∉ lineOf span := by
  rw [lineOf_eq]
  intro hmem
  obtain ⟨c, -, hc⟩ := List.mem_map.mp hmem
  unfold fold at hc
  split at hc
  · exact absurd hc (by decide)
  · rename_i hother
    exact hother (.inl hc)

/-- A line of the output is the text of one value. -/
structure LineOf (line : Text) (value : JsonValue) : Prop where
  decodes : loads line = .ok value
  single : '\n' ∉ line

theorem start_remaining (source : List Bytes) :
    (start source).remaining = fileText (readBytes source) := by
  unfold Reader.remaining Reader.future fileText start
  simp

/-- What came out of a source that was read to its end. -/
theorem lines_of_advances {source : List Bytes} {out : Bytes} {r : Reader}
    (hadvances : Advances (start source) out r) (hdone : Complete r) :
    ∃ values lines, IsArray (readBytes source) values ∧ List.Forall₂ LineOf lines values ∧
      out = lines.flatMap fun line => utf8 line ++ utf8 ['\n'] := by
  have hend : Accounts r [] [] := by
    refine ⟨[], hadvances.settled hdone.1, ?_⟩
    rw [hdone.1]
    exact .done
  obtain ⟨values, spans, ⟨text, htext, hfrom⟩, hout⟩ := hadvances.accounts [] [] hend
  obtain ⟨hloads, hspans⟩ := Yields.scans hfrom
  refine ⟨values, spans.map lineOf, ⟨text, ?_, hloads⟩, ?_, ?_⟩
  · rw [← start_remaining]
    exact htext
  · rw [List.forall₂_map_left_iff]
    exact hspans.imp fun _ _ hobject =>
      ⟨lineOf_loads hobject, newline_not_mem_lineOf _⟩
  · rw [List.flatMap_map]
    have hall : spans.flatMap encoded = out := by simpa [start, hdone.2] using hout
    exact hall.symm

/-- A source that is read to the end is a JSON array, and the output has a line for each element;
what is no JSON array is refused, however often it is read. -/
theorem run_refines (source : List Bytes) (sizes : List ℕ) :
    (∀ out r, run sizes (start source) = .ok (out, r) → Complete r →
      ∃ values lines, IsArray (readBytes source) values ∧ List.Forall₂ LineOf lines values ∧
        out = lines.flatMap fun line => utf8 line ++ utf8 ['\n']) ∧
    ((¬ ∃ values, IsArray (readBytes source) values) → (∀ size ∈ sizes, 0 < size) →
      5 * (readBytes source).length < sizes.length →
      ∃ e, run sizes (start source) = .error e ∧ e ≠ .stuck) := by
  have hfresh : Settled (start source) := nofun
  obtain ⟨herror, hok⟩ := @run_spec sizes _ hfresh
  have hcomplete := fun out r hrun => lines_of_advances (hok out r hrun).1
  refine ⟨hcomplete, ?_⟩
  intro hnone hsizes hlong
  cases hrun : run sizes (start source) with
  | error e => exact ⟨e, rfl, herror e hrun⟩
  | ok read =>
    obtain ⟨out, r⟩ := read
    obtain ⟨hadvances, hprogress⟩ := hok out r hrun
    obtain hdone | hshort := hprogress hsizes
    · obtain ⟨values, lines, harray, -⟩ := hcomplete out r hrun hdone
      exact absurd ⟨values, harray⟩ hnone
    · have hless := hadvances.potential
      change _ ≤ 0 + 5 * (0 + (readBytes source).length) at hless
      omega

theorem run_refines_small :
    (∃ values lines, IsArray (readBytes [[0x5B], [0x7B], [0x7D, 0x5D]]) values ∧
        List.Forall₂ LineOf lines values ∧
        utf8 "{}\n".toList = lines.flatMap fun line => utf8 line ++ utf8 ['\n']) ∧
      ∃ e, run (List.replicate 11 1) (start [[0x5B, 0x2C]]) = .error e ∧ e ≠ .stuck := by
  constructor
  · have hrun : run [2, 2, 1] (start [[0x5B], [0x7B], [0x7D, 0x5D]]) =
        .ok (utf8 "{}\n".toList, ⟨[], .body .none, [], true, .done, [], 1⟩) := by
      decide +kernel
    exact (run_refines [[0x5B], [0x7B], [0x7D, 0x5D]] [2, 2, 1]).1 _ _ hrun ⟨rfl, rfl⟩
  · apply (run_refines [[0x5B, 0x2C]] (List.replicate 11 1)).2
    · rintro ⟨values, text, htext, hloads⟩
      have hread : fileText (readBytes [[0x5B, 0x2C]]) = some "[,".toList := by decide +kernel
      obtain rfl := Option.some.inj (hread.symm.trans htext)
      exact nomatch hloads
    · intro size hsize
      rw [List.eq_of_mem_replicate hsize]
      exact Nat.zero_lt_one
    · decide +kernel

end DataQ.FlatFiles.ArrayLines
