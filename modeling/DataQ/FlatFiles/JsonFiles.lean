import DataQ.FlatFiles.ArrayLines

/-! # JSON files

`datasources/jsonfile.py`: an array of objects is read to its end whatever the pieces it comes in
are, the shape of a file is that of its text, and its first block holds whole lines. -/

namespace DataQ.FlatFiles.ArrayLines
open DataQ.Fallible DataQ.JsonScanner DataQ.RecordReaders
open DataQ.Percent (Bytes utf8)
open DataQ.Utf8 (signedReader)
set_option autoImplicit false

/-! ## An array of objects is read to its end -/

/-- What is left is the rest of an array of objects, and no `int` in it has too many digits. -/
structure Sound (r : Reader) : Prop where
  accounts : ∃ values spans, Accounts r values spans
  short : ∀ text, r.remaining = some text → ¬ LongInt text

theorem more_eq_ok {r : Reader} {text : Text} (h : r.future = some text) :
    ∃ read, more r = .ok read := by
  unfold more
  unfold Reader.future at h
  by_cases heof : r.eof = true
  · exact ⟨none, if_pos heof⟩
  rw [if_neg heof] at h ⊢
  by_cases hempty : r.source.head?.getD [] = []
  · rw [if_pos hempty]
    have hbytes : readBytes r.source = [] := by
      cases hsource : r.source with
      | nil => rfl
      | cons chunk source =>
        rw [hsource] at hempty
        have hchunk : chunk = [] := hempty
        simp [readBytes, hchunk]
    rw [hbytes] at h
    cases hfinish : signedReader.finish r.decoder with
    | ok decoded => exact ⟨_, rfl⟩
    | error e =>
      have hread : signedReader.readAll r.decoder [] = .error e := map_eq_error.mpr hfinish
      rw [hread] at h
      cases h
  · rw [if_neg hempty]
    cases hfeed : signedReader.feed r.decoder (r.source.head?.getD []) with
    | ok fed => exact ⟨_, rfl⟩
    | error e =>
      cases hsource : r.source with
      | nil =>
        rw [hsource] at hempty
        exact absurd rfl hempty
      | cons chunk source =>
        rw [hsource] at hempty hfeed h
        have hchunk : chunk ≠ [] := hempty
        have hfeed : signedReader.feed r.decoder chunk = .error e := hfeed
        rw [readBytes_cons hchunk, RecordReader.readAll_append_error hfeed] at h
        cases h

theorem future_of_remaining {r : Reader} {text : Text} (h : r.remaining = some text) :
    ∃ behind, r.future = some behind ∧ text = r.text ++ behind := by
  obtain ⟨behind, hbehind, htext⟩ := Option.map_eq_some_iff.mp h
  exact ⟨behind, hbehind, htext.symm⟩

theorem peek_eq_ok {n : ℕ} {r : Reader} (hn : r.reads < n) {text : Text}
    (h : r.remaining = some text) : ∃ char r', peek n r = .ok (char, r') := by
  induction n generalizing r text with
  | zero => omega
  | succ n ih =>
    obtain ⟨behind, hfuture, -⟩ := future_of_remaining h
    by_cases hskip : skip r.text = []
    · have hblank : ({ r with text := [] } : Reader).future = some behind := hfuture
      rw [peek_of_blank hskip]
      obtain ⟨read, hmore⟩ := more_eq_ok hblank
      rw [hmore]
      cases read with
      | none => exact ⟨_, _, rfl⟩
      | some r₁ =>
        obtain ⟨decoded, hreads⟩ := more_eq_some hmore
        have hless := hreads.reads
        change r₁.reads < r.reads at hless
        have hremaining : r₁.remaining = some ([] ++ behind) := by
          rw [hreads.remaining, Reader.remaining, hblank]
          rfl
        exact ih (by omega) hremaining
    · rw [peek, if_pos hskip]
      exact ⟨_, _, rfl⟩

/-- The element that comes next is cut off whole. -/
theorem decodeElement_eq_ok {n : ℕ} {r : Reader} (hn : r.reads < n) {span rest : Text}
    {value : JsonValue} (hremaining : r.remaining = some (span ++ rest))
    (hopen : r.text.head? = some '{') (hobject : ObjectText span value)
    (hshort : ¬ LongInt (span ++ rest)) :
    ∃ r', decodeElement n r = .ok (span, r') := by
  induction n generalizing r with
  | zero => omega
  | succ n ih =>
    obtain ⟨behind, hfuture, htext⟩ := future_of_remaining hremaining
    cases hdecode : rawDecode r.text with
    | ok decoded =>
      obtain ⟨other, last⟩ := decoded
      obtain ⟨piece, hpiece, hcut⟩ := rawDecode_object hdecode hopen
      -- the same object stands at the front of the whole text
      have hwhole : span ++ rest = piece ++ (last ++ behind) := by
        rw [htext, hpiece, List.append_assoc]
      have hsame := hobject.rawDecode rest
      rw [hwhole, hcut.rawDecode (last ++ behind)] at hsame
      obtain ⟨rfl, rfl⟩ := Prod.mk.inj (Except.ok.inj hsame)
      obtain rfl := List.append_cancel_right hwhole
      refine ⟨{ r with text := last }, ?_⟩
      have hspan : r.text.take (r.text.length - last.length) = span := by
        rw [hpiece, List.length_append, Nat.add_sub_cancel]
        exact List.take_left
      rw [decodeElement, hdecode]
      simp only [hspan]
    | error fault =>
      cases fault with
      | value =>
        refine absurd ?_ hshort
        rw [htext]
        exact ((scan_eq_value _).1 _ hdecode).of_isInfix ⟨[], behind, rfl⟩
      | decode =>
        obtain ⟨read, hmore⟩ := more_eq_ok hfuture
        cases read with
        | none =>
          have heof := more_eq_none hmore
          have hnone : behind = [] := by
            simpa [Reader.future, heof] using hfuture.symm
          rw [hnone, List.append_nil] at htext
          rw [← htext, hobject.rawDecode] at hdecode
          cases hdecode
        | some r₁ =>
          obtain ⟨decoded, hreads⟩ := more_eq_some hmore
          have hless := hreads.reads
          have hopen₁ : r₁.text.head? = some '{' := by
            rw [hreads.text, List.head?_append, hopen]
            rfl
          obtain ⟨r', hrest⟩ := ih (by omega) (by rw [hreads.remaining, hremaining]) hopen₁
          refine ⟨r', ?_⟩
          rw [decodeElement, hdecode]
          simp only [hmore]
          exact hrest

theorem Sound.of_advance {r r' : Reader} {front : Text} (h : Sound r)
    (hremaining : r.remaining = r'.remaining.map (front ++ ·))
    (haccounts : ∃ values spans, Accounts r' values spans) : Sound r' := by
  refine ⟨haccounts, ?_⟩
  intro text htext hlong
  rw [htext] at hremaining
  exact h.short _ hremaining hlong.of_append

theorem Sound.of_blank {r r' : Reader} (h : Sound r)
    (hremaining : r'.remaining = r.remaining.map skip)
    (haccounts : ∃ values spans, Accounts r' values spans) : Sound r' := by
  refine ⟨haccounts, ?_⟩
  intro text htext hlong
  rw [htext] at hremaining
  obtain ⟨whole, hwhole, hskip⟩ := Option.map_eq_some_iff.mp hremaining.symm
  refine h.short whole hwhole ?_
  rw [← hskip] at hlong
  exact hlong.of_skip

/-- The first character of what is left is seen. -/
theorem Peeked.first_eq {r r' : Reader} {char : Option Char} (h : Peeked r char r')
    {text rest : Text}
    {c : Char} (htext : r.remaining = some text) (hskip : skip text = c :: rest) :
    char = some c ∧ r'.remaining = some (c :: rest) := by
  have hremaining := h.remaining
  rw [htext, Option.map_some, hskip] at hremaining
  refine ⟨?_, hremaining⟩
  obtain ⟨behind, hfuture, hsplit⟩ := future_of_remaining hremaining
  cases hchar : char with
  | some d =>
    have hhead := h.first.symm.trans hchar
    rw [List.eq_cons_of_mem_head? hhead] at hsplit
    rw [(List.cons.inj hsplit).1]
  | none =>
    have hempty : r'.text = [] := List.head?_eq_none_iff.mp (h.first.symm.trans hchar)
    have hnone : behind = [] := by
      have heof := h.ended hchar
      simpa [Reader.future, heof] using hfuture.symm
    rw [hempty, hnone] at hsplit
    cases hsplit

/-- The character that was seen is consumed, and the rest goes on from the next phase. -/
theorem Sound.consumed {r r₁ : Reader} {char : Option Char} {c : Char} {text rest : Text}
    {phase : Phase} {values : List JsonValue} {spans : List Text} (h : Sound r)
    (hpeeked : Peeked r char r₁) (htext : r.remaining = some text) (hskip : skip text = c :: rest)
    (hyields : Yields phase rest values spans) :
    char = some c ∧ Sound { r₁ with text := r₁.text.tail, phase := phase } := by
  obtain ⟨hchar, hrest⟩ := hpeeked.first_eq htext hskip
  refine ⟨hchar, ?_⟩
  obtain ⟨hremaining, -⟩ := ArrayLines.consumed (hpeeked.first.symm.trans hchar) phase
  rw [hrest] at hremaining
  obtain ⟨left, hleft, hcons⟩ := Option.map_eq_some_iff.mp hremaining.symm
  obtain rfl := (List.cons.inj hcons).2
  refine ⟨⟨values, spans, left, hleft, hyields⟩, ?_⟩
  intro other hother hlong
  obtain rfl := Option.some.inj (hleft.symm.trans hother)
  refine h.short text htext ?_
  have hwhole : LongInt (skip text) := by
    rw [hskip]
    exact @LongInt.of_append [c] _ hlong
  exact hwhole.of_skip

theorem step_eq_ok {r : Reader} (h : Sound r) (hdone : r.phase ≠ .done) :
    ∃ r', step r = .ok r' ∧ Sound r' := by
  obtain ⟨values, spans, text, htext, hyields⟩ := h.accounts
  obtain ⟨char, r₁, hpeek⟩ := peek_eq_ok (Nat.lt_succ_self r.reads) htext
  have hpeeked := (peek_spec (Nat.lt_succ_self r.reads)).2 char r₁ hpeek
  rw [step_of_peek hpeek, hpeeked.phase]
  generalize hphase : r.phase = phase at hyields hdone
  cases hyields with
  | done => exact absurd rfl hdone
  | trailer hend =>
    have hnone : char = none := by
      have hremaining := hpeeked.remaining
      rw [htext, Option.map_some, hend] at hremaining
      obtain ⟨behind, -, hsplit⟩ := future_of_remaining hremaining
      rw [hpeeked.first, (List.append_eq_nil_iff.mp hsplit.symm).1]
      rfl
    refine ⟨_, if_neg (not_not_intro hnone), ?_⟩
    refine h.of_blank hpeeked.remaining ⟨[], [], [], ?_, .done⟩
    have hremaining := hpeeked.remaining
    rw [htext, Option.map_some, hend] at hremaining
    exact hremaining
  | closed hskip hnext =>
    obtain ⟨hchar, hsound⟩ := h.consumed hpeeked htext hskip hnext
    exact ⟨_, if_pos hchar, hsound⟩
  | filled hnext =>
    cases hnext with
    | @element _ span rest value values spans hskip hobject hnext =>
      obtain ⟨c, cs, rfl, -⟩ := hobject.begins
      obtain ⟨hchar, hrest⟩ := hpeeked.first_eq htext hskip
      have hopen : c = '{' := Option.some.inj hobject.opened
      have hother : char ≠ some ']' := by
        rw [hchar, hopen]
        decide
      refine ⟨_, if_neg hother, ?_⟩
      refine h.of_blank hpeeked.remaining ⟨value :: values, (c :: cs) :: spans, _, hrest, ?_⟩
      refine .element ?_ hobject hnext
      have hsame := skip_skip text
      rwa [hskip] at hsame
  | @element _ span rest value values spans hskip hobject hnext =>
    obtain ⟨c, cs, rfl, -⟩ := hobject.begins
    obtain ⟨hchar, hrest⟩ := hpeeked.first_eq htext hskip
    have hopen : char = some '{' := hchar.trans hobject.opened
    have hhead : r₁.text.head? = some '{' := hpeeked.first.symm.trans hopen
    have hshort : ¬ LongInt (c :: cs ++ rest) := by
      intro hlong
      refine h.short text htext ?_
      rw [← hskip] at hlong
      exact hlong.of_skip
    obtain ⟨r₂, hdecode⟩ :=
      decodeElement_eq_ok (Nat.lt_succ_self r₁.reads) hrest hhead hobject hshort
    have hcut := (decodeElement_spec (Nat.lt_succ_self r₁.reads) hhead).2 _ r₂ hdecode
    refine ⟨{ r₂ with
      out := r₂.out ++ encoded (c :: cs)
      elements := r₂.elements + 1
      phase := .separator }, ?_, ?_⟩
    · change element char r₁ = _
      unfold element
      rw [hopen, if_neg (by simp), if_neg (by simp), hdecode]
      rfl
    · have hremaining := hcut.remaining
      rw [hrest] at hremaining
      obtain ⟨left, hleft, hcons⟩ := Option.map_eq_some_iff.mp hremaining.symm
      obtain rfl := List.append_cancel_left hcons
      refine ⟨⟨values, spans, left, hleft, hnext⟩, ?_⟩
      intro other hother hlong
      obtain rfl := Option.some.inj (hleft.symm.trans hother)
      exact hshort hlong.of_append
  | comma hskip hnext =>
    obtain ⟨hchar, hsound⟩ := h.consumed hpeeked htext hskip hnext
    exact ⟨_, if_pos hchar, hsound⟩
  | close hskip hnext =>
    obtain ⟨hchar, hsound⟩ := h.consumed hpeeked htext hskip hnext
    refine ⟨_, (if_neg ?_).trans (if_pos hchar), hsound⟩
    rw [hchar]
    decide
  | opening hskip hnext =>
    obtain ⟨hchar, hsound⟩ := h.consumed hpeeked htext hskip hnext
    exact ⟨_, if_neg (not_not_intro hchar), hsound⟩

theorem fill_eq_ok {n size : ℕ} {r : Reader} (hn : r.weight ≤ n) (h : Sound r) :
    ∃ r', fill n size r = .ok r' ∧ Sound r' := by
  induction n generalizing r with
  | zero =>
    have hdone : r.phase = .done := by
      have hrank : r.phase.rank = 0 := by
        unfold Reader.weight at hn
        omega
      cases hphase : r.phase <;> rw [hphase] at hrank <;> first | rfl | cases hrank
    exact ⟨r, if_pos (.inr hdone), h⟩
  | succ n ih =>
    rw [fill]
    by_cases hfull : size ≤ r.out.length ∨ r.phase = .done
    · exact ⟨r, if_pos hfull, h⟩
    · rw [if_neg hfull]
      have hdone : r.phase ≠ .done := fun hdone => hfull (.inr hdone)
      obtain ⟨r₁, hstep, hsound⟩ := step_eq_ok h hdone
      have hweight := ((step_spec hdone).2 r₁ hstep).weight
      rw [hstep]
      exact ih (by omega) hsound

theorem Sound.with_out {r : Reader} (h : Sound r) (out : Bytes) : Sound { r with out := out } :=
  ⟨h.accounts, h.short⟩

theorem run_eq_ok {sizes : List ℕ} {r : Reader} (h : Sound r) :
    ∃ out r', run sizes r = .ok (out, r') := by
  induction sizes generalizing r with
  | nil => exact ⟨[], r, rfl⟩
  | cons size sizes ih =>
    obtain ⟨r₁, hfill, hsound⟩ := @fill_eq_ok _ size _ (Nat.le_refl r.weight) h
    have hread : readinto size r = .ok (r₁.out.take size, { r₁ with out := r₁.out.drop size }) := by
      unfold readinto
      rw [hfill]
      rfl
    obtain ⟨behind, r₂, hrun⟩ := ih (hsound.with_out (r₁.out.drop size))
    rw [run, hread]
    change ∃ out r', (run sizes _ >>= fun x => _) = .ok (out, r')
    rw [hrun]
    exact ⟨_, _, rfl⟩

theorem literalValue_ne_object (literal : Text) (members : List (List ℕ × JsonValue)) :
    literalValue literal ≠ .ok (.object members) := by
  unfold literalValue
  repeat' split
  all_goals exact nofun

theorem literalValue_ne_array (literal : Text) (items : List JsonValue) :
    literalValue literal ≠ .ok (.array items) := by
  unfold literalValue
  repeat' split
  all_goals exact nofun

theorem scanOnce_array {n : ℕ} {text rest : Text} {items : List JsonValue}
    (h : scanOnce n text = .ok (.array items, rest)) :
    ∃ behind, text = '[' :: behind ∧ ∃ m, bracketed ']' .array (scanItems m) behind =
      .ok (.array items, rest) := by
  cases n with
  | zero => cases h
  | succ n =>
    cases text with
    | nil => cases h
    | cons c cs =>
      rw [scanOnce] at h
      by_cases hquote : c = '"'
      · rw [if_pos hquote] at h
        obtain ⟨⟨_, _⟩, -, hmk⟩ := map_eq_ok.mp h
        cases (Prod.mk.inj hmk).1
      rw [if_neg hquote] at h
      by_cases hobject : c = '{'
      · rw [if_pos hobject] at h
        unfold bracketed at h
        split at h
        · cases (Prod.mk.inj (Except.ok.inj h)).1
        · obtain ⟨⟨_, _⟩, -, hmk⟩ := map_eq_ok.mp h
          cases (Prod.mk.inj hmk).1
      rw [if_neg hobject] at h
      by_cases harray : c = '['
      · rw [if_pos harray] at h
        exact ⟨cs, by rw [harray], n, h⟩
      rw [if_neg harray] at h
      obtain ⟨value, hvalue, hmk⟩ := map_eq_ok.mp h
      obtain ⟨rfl, -⟩ := Prod.mk.inj hmk
      exact absurd hvalue (literalValue_ne_array _ items)

theorem head_of_object {n : ℕ} {text rest : Text} {members : List (List ℕ × JsonValue)}
    (h : scanOnce n text = .ok (.object members, rest)) : text.head? = some '{' := by
  cases n with
  | zero => cases h
  | succ n =>
    cases text with
    | nil => cases h
    | cons c cs =>
      rw [scanOnce] at h
      by_cases hquote : c = '"'
      · rw [if_pos hquote] at h
        obtain ⟨⟨_, _⟩, -, hmk⟩ := map_eq_ok.mp h
        cases (Prod.mk.inj hmk).1
      rw [if_neg hquote] at h
      by_cases hobject : c = '{'
      · rw [hobject]
        rfl
      rw [if_neg hobject] at h
      by_cases harray : c = '['
      · rw [if_pos harray] at h
        unfold bracketed at h
        split at h
        · cases (Prod.mk.inj (Except.ok.inj h)).1
        · obtain ⟨⟨_, _⟩, -, hmk⟩ := map_eq_ok.mp h
          cases (Prod.mk.inj hmk).1
      rw [if_neg harray] at h
      obtain ⟨value, hvalue, hmk⟩ := map_eq_ok.mp h
      obtain ⟨rfl, -⟩ := Prod.mk.inj hmk
      exact absurd hvalue (literalValue_ne_object _ members)

/-- The items of an array of objects, one after another. -/
theorem yields_of_items {n : ℕ} {text rest : Text} {values : List JsonValue}
    (h : scanItems n text = .ok (values, rest)) (hskip : skip text = text) (hend : skip rest = [])
    (hobjects : ∀ value ∈ values, ∃ members, value = .object members) :
    ∃ spans, Yields .element text values spans := by
  induction n generalizing text values with
  | zero => exact nomatch h
  | succ n ih =>
    obtain ⟨item, text₁, d, text₂, hitem, hnext, hlast⟩ := scanItems_eq_ok.mp h
    have hmem : item ∈ values := by
      obtain ⟨-, rfl, -⟩ | ⟨-, others, -, rfl⟩ := hlast <;> exact List.mem_cons_self
    obtain ⟨members, rfl⟩ := hobjects item hmem
    obtain ⟨span, rfl, hobject⟩ := scanOnce_object hitem (head_of_object hitem)
    obtain ⟨rfl, rfl, rfl⟩ | ⟨rfl, others, hothers, rfl⟩ := hlast
    · exact ⟨[span], .element hskip hobject (.close hnext (.trailer hend))⟩
    · have hrest : ∀ value ∈ others, ∃ members, value = .object members := fun value hvalue =>
        hobjects value (List.mem_cons_of_mem _ hvalue)
      obtain ⟨spans, hspans⟩ := ih hothers (skip_skip text₂) hrest
      refine ⟨span :: spans, .element hskip hobject (.comma hnext ?_)⟩
      cases hspans with
      | element hfirst hmore hbehind => exact .element (by rwa [skip_skip] at hfirst) hmore hbehind

theorem yields_of_loads {text : Text} {values : List JsonValue}
    (h : loads text = .ok (.array values))
    (hobjects : ∀ value ∈ values, ∃ members, value = .object members) :
    ∃ spans, Yields .opening text values spans := by
  unfold loads at h
  obtain ⟨⟨value, rest⟩, hdecode, h₁⟩ := bind_eq_ok.mp h
  dsimp only at h₁
  split at h₁
  · next hend =>
    obtain rfl := Except.ok.inj h₁
    obtain ⟨behind, hskip, m, hlist⟩ := scanOnce_array hdecode
    unfold bracketed at hlist
    split at hlist
    · next hclose =>
      obtain ⟨hempty, hrest⟩ := Prod.mk.inj (Except.ok.inj hlist)
      obtain rfl := JsonValue.array.inj hempty
      have hbehind := List.eq_cons_of_mem_head? hclose
      rw [hrest] at hbehind
      exact ⟨[], .opening hskip (.closed hbehind (.trailer hend))⟩
    · obtain ⟨⟨items, last⟩, hitems, hmk⟩ := map_eq_ok.mp hlist
      obtain ⟨hvalues, rfl⟩ := Prod.mk.inj hmk
      obtain rfl := JsonValue.array.inj hvalues
      obtain ⟨spans, hspans⟩ := yields_of_items hitems (skip_skip behind) hend hobjects
      refine ⟨spans, .opening hskip (.filled ?_)⟩
      cases hspans with
      | element hfirst hmore hnext => exact .element (by rwa [skip_skip] at hfirst) hmore hnext
  · exact nomatch h₁

theorem not_longInt_small : ¬ LongInt "[{}]".toList := by
  rintro ⟨digits, hlong, -, hin⟩
  have hlength := hin.length_le
  change digits.length ≤ 4 at hlength
  unfold maxStrDigits at hlong
  omega

inductive Shape
  | lines
  | array
  | empty
  deriving DecidableEq, Repr

def blankByte (b : UInt8) : Bool := b = 0x20 || b = 0x09 || b = 0x0D || b = 0x0A

def unmarked (bytes : Bytes) : Bytes :=
  if Utf8.bom <+: bytes then bytes.drop Utf8.bom.length else bytes

/-- The loop of `detect_shape`. -/
def firstByte : Bool → List Bytes → Option UInt8
  | _, [] => none
  | atStart, chunk :: source =>
    if chunk = [] then none
    else
      match (if atStart then unmarked chunk else chunk).dropWhile blankByte with
      | b :: _ => some b
      | [] => firstByte false source

def neither : ReadError := .jsonFile
  ("the file is neither JSON Lines (one object per line) nor a JSON array of objects".toList)

def detectShape (source : List Bytes) : Except ReadError Shape :=
  match firstByte true source with
  | none => .ok .empty
  | some b =>
    if b = 0x7B then .ok .lines
    else if b = 0x5B then .ok .array
    else .error neither

/-- What the first character of a text that is no white space says. -/
def shapeOf (text : Text) : Except ReadError Shape :=
  match (skip text).head? with
  | none => .ok .empty
  | some c => if c = '{' then .ok .lines else if c = '[' then .ok .array else .error neither

theorem firstByte_cons {chunk : Bytes} (h : chunk ≠ []) (atStart : Bool) (source : List Bytes) :
    firstByte atStart (chunk :: source) =
      match (if atStart then unmarked chunk else chunk).dropWhile blankByte with
      | b :: _ => some b
      | [] => firstByte false source := by
  rw [firstByte, if_neg h]

theorem firstByte_rest (source : List Bytes) :
    firstByte false source = ((readBytes source).dropWhile blankByte).head? := by
  induction source with
  | nil => rfl
  | cons chunk source ih =>
    by_cases hchunk : chunk = []
    · rw [firstByte, if_pos hchunk, hchunk]
      rfl
    · rw [firstByte_cons hchunk, readBytes_cons hchunk, List.dropWhile_append, ih]
      cases hdrop : chunk.dropWhile blankByte <;> simp [hdrop]

/-- The first piece is not a byte order mark that was cut short. -/
def MarkWhole (source : List Bytes) : Prop :=
  source.head?.getD [] = [] ∨ ¬ source.head?.getD [] <+: Utf8.bom ∨ source.head?.getD [] = Utf8.bom

theorem firstByte_start {source : List Bytes} (h : MarkWhole source) :
    firstByte true source = ((unmarked (readBytes source)).dropWhile blankByte).head? := by
  cases source with
  | nil => rfl
  | cons chunk source =>
    by_cases hchunk : chunk = []
    · rw [firstByte, if_pos hchunk, hchunk]
      rfl
    · have hmark : unmarked (chunk ++ readBytes source) = unmarked chunk ++ readBytes source := by
        unfold unmarked
        by_cases hbom : Utf8.bom <+: chunk
        · obtain ⟨rest, rfl⟩ := hbom
          rw [if_pos (List.prefix_append _ _), if_pos ⟨rest ++ readBytes source, by simp⟩]
          simp
        · have hwhole : ¬ Utf8.bom <+: chunk ++ readBytes source := by
            intro hprefix
            have hchunkpre : chunk <+: Utf8.bom := by
              obtain hle | hle := List.prefix_or_prefix_of_prefix hprefix (List.prefix_append _ _)
              · exact absurd hle hbom
              · exact hle
            obtain hempty | hnot | hsame := h
            · exact hchunk hempty
            · exact hnot hchunkpre
            · exact hbom ⟨[], by simpa using hsame.symm⟩
          rw [if_neg hbom, if_neg hwhole]
      rw [firstByte_cons hchunk, readBytes_cons hchunk, hmark, List.dropWhile_append,
        firstByte_rest]
      cases hdrop : (unmarked chunk).dropWhile blankByte <;> simp [hdrop]

theorem blank_ofNat {b : UInt8} (hb : b.toNat < 0x80) :
    blank (Char.ofNat b.toNat) = blankByte b ∧ (Char.ofNat b.toNat = '{' ↔ b = 0x7B) ∧
      (Char.ofNat b.toNat = '[' ↔ b = 0x5B) := by
  have hall : ∀ n < 0x80, blank (Char.ofNat n) = blankByte (UInt8.ofNat n) ∧
      (Char.ofNat n = '{' ↔ UInt8.ofNat n = 0x7B) ∧
      (Char.ofNat n = '[' ↔ UInt8.ofNat n = 0x5B) := by
    decide +kernel
  have h := hall b.toNat hb
  rwa [UInt8.ofNat_toNat] at h

theorem plain_of_wide {n : ℕ} (hn : 0x80 ≤ n) :
    blank (Char.ofNat n) = false ∧ Char.ofNat n ≠ '{' ∧ Char.ofNat n ≠ '[' := by
  have hfar : ∀ c : Char, 0 < c.toNat → c.toNat < 0x80 → Char.ofNat n ≠ c := by
    rintro c hpos hc rfl
    by_cases hvalid : n.isValidChar
    · have hnat : (Char.ofNat n).toNat = n := by
        unfold Char.ofNat
        rw [dif_pos hvalid]
        unfold Char.ofNatAux Char.toNat
        simp
      omega
    · have hnat : (Char.ofNat n).toNat = 0 := by
        unfold Char.ofNat
        rw [dif_neg hvalid]
        rfl
      omega
  refine ⟨?_, hfar _ (by decide) (by decide), hfar _ (by decide) (by decide)⟩
  have hplain : ∀ c ∈ [' ', '\t', '\n', '\r'], Char.ofNat n ≠ c := by
    intro c hc
    have hbound : ∀ c ∈ [' ', '\t', '\n', '\r'], 0 < c.toNat ∧ c.toNat < 0x80 := by
      simp
    exact hfar c (hbound c hc).1 (hbound c hc).2
  unfold blank
  simp only [List.mem_cons, List.not_mem_nil, or_false, forall_eq_or_imp, forall_eq] at hplain
  simp [hplain]

/-- The first byte of a text that is no white space stands for its first such character. -/
theorem shape_of_bytes {bytes : Bytes} {text : Text}
    (h : Utf8.reader.readAll Utf8.reader.start bytes = .ok text) :
    (match (bytes.dropWhile blankByte).head? with
      | none => .ok .empty
      | some b =>
        if b = 0x7B then .ok .lines else if b = 0x5B then .ok .array else .error neither) =
      shapeOf text := by
  induction bytes generalizing text with
  | nil =>
    obtain rfl : text = [] := (Except.ok.inj h).symm
    rfl
  | cons b bytes ih =>
    obtain ⟨hb, rest, rfl, hrest⟩ | ⟨hb, n, rest, hn, rfl⟩ := Utf8.readAll_cons h
    · obtain ⟨hblank, hopen, harray⟩ := blank_ofNat hb
      by_cases hskip : blankByte b = true
      · rw [List.dropWhile_cons_of_pos hskip, ih hrest]
        unfold shapeOf
        rw [skip, skip, List.dropWhile_cons_of_pos (hblank.trans hskip)]
      · have hplain : blank (Char.ofNat b.toNat) = false := by
          rw [hblank]
          exact Bool.not_eq_true _ |>.mp hskip
        rw [List.dropWhile_cons_of_neg hskip]
        unfold shapeOf
        rw [skip, List.dropWhile_cons_of_neg (by simp [hplain])]
        simp only [List.head?_cons, hopen, harray]
    · have hfar : ∀ b' : UInt8, b'.toNat < 0x80 → b ≠ b' := by
        rintro b' hb' rfl
        omega
      have hblank : blankByte b = false := by
        unfold blankByte
        simp [hfar 0x20 (by decide), hfar 0x09 (by decide), hfar 0x0D (by decide),
          hfar 0x0A (by decide)]
      obtain ⟨hplain, hopen, harray⟩ := plain_of_wide hn
      rw [List.dropWhile_cons_of_neg (by simp [hblank])]
      unfold shapeOf
      rw [skip, List.dropWhile_cons_of_neg (by simp [hplain])]
      simp only [List.head?_cons, if_neg hopen, if_neg harray, if_neg (hfar 0x7B (by decide)),
        if_neg (hfar 0x5B (by decide))]

/-- Whatever the pieces of a file are, its shape is that of its text, as long as the first of them
is not a byte order mark that was cut short. -/
theorem detectShape_eq {source : List Bytes} {text : Text} (hmark : MarkWhole source)
    (htext : fileText (readBytes source) = some text) : detectShape source = shapeOf text := by
  have hread : Utf8.reader.readAll Utf8.reader.start (unmarked (readBytes source)) = .ok text := by
    unfold fileText at htext
    have hsigned : signedReader.readAll signedReader.start (readBytes source) = .ok text := by
      cases h : signedReader.readAll signedReader.start (readBytes source) with
      | error e =>
        rw [h] at htext
        exact nomatch htext
      | ok other =>
        rw [h] at htext
        rw [Option.some.inj htext]
    unfold unmarked
    by_cases hbom : Utf8.bom <+: readBytes source
    · rw [if_pos hbom]
      obtain ⟨rest, hrest⟩ := hbom
      rw [← hrest, Utf8.readAll_bom] at hsigned
      rw [← hrest, List.drop_left]
      exact hsigned
    · rw [if_neg hbom]
      by_cases hcut : readBytes source <+: Utf8.bom
      · have hnil : readBytes source = [] := by
          cases source with
          | nil => rfl
          | cons chunk source =>
            by_cases hchunk : chunk = []
            · rw [hchunk]
              rfl
            · rw [readBytes_cons hchunk] at hbom hcut
              obtain hempty | hnot | hsame := hmark
              · exact absurd hempty hchunk
              · exact absurd ((List.prefix_append _ _).trans hcut) hnot
              · have hsame : chunk = Utf8.bom := hsame
                rw [hsame] at hbom
                exact absurd (List.prefix_append _ _) hbom
        rw [hnil] at hsigned ⊢
        exact hsigned
      · rw [← Utf8.readAll_unsigned hbom hcut]
        exact hsigned
  unfold detectShape
  rw [firstByte_start hmark]
  rw [← shape_of_bytes hread]


theorem detectShape_eq_marked :
    detectShape [[0xEF, 0xBB, 0xBF, 0x0A], [0x5B, 0x5D]] = shapeOf "\n[]".toList := by
  have htext : fileText (readBytes [[0xEF, 0xBB, 0xBF, 0x0A], [0x5B, 0x5D]]) =
      some "\n[]".toList := by
    decide +kernel
  exact detectShape_eq (.inr (.inl (by decide))) htext

/-! ## The first block -/

def newline : UInt8 := 0x0A

/-- `bytes.find`. -/
def find (bytes : Bytes) : Option ℕ := bytes.findIdx? (· = newline)

/-- `bytes.rfind`. -/
def rfind : Bytes → Option ℕ
  | [] => none
  | b :: bytes =>
    match rfind bytes with
    | some i => some (i + 1)
    | none => if b = newline then some 0 else none

/-- The loop of `_first_block`: `head` is what was read, and `rest` what is still there. -/
def onward (block : ℕ) : ℕ → Bytes → Bytes → Bytes
  | 0, head, _ => head
  | n + 1, head, rest =>
    if rest.take block = [] then head
    else
      match find (rest.take block) with
      | some i => (head ++ rest.take block).take (head.length + i + 1)
      | none => onward block n (head ++ rest.take block) (rest.drop block)

/-- `_first_block`, of a stream with this content. -/
def firstBlock (block : ℕ) (content : Bytes) : Bytes :=
  if (content.take block).length < block then content.take block
  else
    match rfind (content.take block) with
    | some cut => (content.take block).take (cut + 1)
    | none => onward block (content.length + 1) (content.take block) (content.drop block)

theorem not_mem_of_rfind {bytes : Bytes} (h : rfind bytes = none) : newline ∉ bytes := by
  induction bytes with
  | nil => simp
  | cons b bytes ih =>
    rw [rfind] at h
    cases hrest : rfind bytes with
    | some i => simp [hrest] at h
    | none =>
      by_cases hb : b = newline
      · simp [hrest, hb] at h
      · simp [ih hrest, Ne.symm hb]

theorem rfind_eq_some {bytes : Bytes} {i : ℕ} (h : rfind bytes = some i) :
    ∃ front back, bytes = front ++ newline :: back ∧ front.length = i ∧ newline ∉ back := by
  induction bytes generalizing i with
  | nil => exact nomatch h
  | cons b bytes ih =>
    rw [rfind] at h
    cases hrest : rfind bytes with
    | some j =>
      simp only [hrest, Option.some.injEq] at h
      obtain ⟨front, back, rfl, rfl, hback⟩ := ih hrest
      exact ⟨b :: front, back, rfl, by simpa using h, hback⟩
    | none =>
      by_cases hb : b = newline
      · simp only [hrest, hb, if_true, Option.some.injEq] at h
        exact ⟨[], bytes, by rw [hb]; rfl, h, not_mem_of_rfind hrest⟩
      · simp [hrest, hb] at h

/-- The bytes up to the first newline and with it, or all of them. -/
def upToLine : Bytes → Bytes
  | [] => []
  | b :: bytes => if b = newline then [b] else b :: upToLine bytes

theorem upToLine_append_of_not_mem {bytes : Bytes} (h : newline ∉ bytes) (rest : Bytes) :
    upToLine (bytes ++ rest) = bytes ++ upToLine rest := by
  induction bytes with
  | nil => rfl
  | cons b bytes ih =>
    rw [List.mem_cons, not_or] at h
    rw [List.cons_append, upToLine, if_neg (Ne.symm h.1), ih h.2, List.cons_append]

theorem upToLine_of_find {bytes : Bytes} {i : ℕ} (h : find bytes = some i) (rest : Bytes) :
    upToLine (bytes ++ rest) = bytes.take (i + 1) := by
  induction bytes generalizing i with
  | nil => exact nomatch h
  | cons b bytes ih =>
    unfold find at h
    rw [List.findIdx?_cons] at h
    by_cases hb : b = newline
    · rw [if_pos (by simpa using hb)] at h
      obtain rfl := Option.some.inj h
      rw [List.cons_append, upToLine, if_pos hb]
      rfl
    · rw [if_neg (by simpa using hb)] at h
      obtain ⟨j, hj, rfl⟩ := Option.map_eq_some_iff.mp h
      rw [List.cons_append, upToLine, if_neg hb, ih hj, List.take_succ_cons]

theorem onward_eq {block : ℕ} (hblock : 0 < block) {n : ℕ} {rest : Bytes} (hn : rest.length < n)
    (head : Bytes) : onward block n head rest = head ++ upToLine rest := by
  induction n generalizing head rest with
  | zero => omega
  | succ n ih =>
    rw [onward]
    by_cases hempty : rest.take block = []
    · have hrest : rest = [] := by
        obtain hzero | hnil := List.take_eq_nil_iff.mp hempty
        · omega
        · exact hnil
      rw [if_pos hempty, hrest, upToLine, List.append_nil]
    · rw [if_neg hempty]
      have hsplit := List.take_append_drop block rest
      cases hfind : find (rest.take block) with
      | some i =>
        have hline := upToLine_of_find hfind (rest.drop block)
        rw [hsplit] at hline
        rw [hline]
        simp only [List.take_append, Nat.add_assoc, Nat.add_sub_cancel_left]
        rw [List.take_of_length_le (by omega)]
      | none =>
        have hnone : newline ∉ rest.take block := by
          unfold find at hfind
          rw [List.findIdx?_eq_none_iff] at hfind
          intro hmem
          simpa using hfind newline hmem
        have hlength : (rest.drop block).length < n := by
          have hpos : rest.length ≠ 0 := by
            intro hzero
            rw [List.length_eq_zero_iff.mp hzero] at hempty
            exact hempty List.take_nil
          rw [List.length_drop]
          omega
        have hline := upToLine_append_of_not_mem hnone (rest.drop block)
        rw [hsplit] at hline
        dsimp only
        rw [ih hlength, hline, List.append_assoc]

/-- The bytes are whole lines, as many as there are in a block, or the first line and no more where
it is longer than a block. -/
structure WholeLines (block : ℕ) (content bytes : Bytes) : Prop where
  front : bytes <+: content
  ended : bytes = content ∨ ∃ line, bytes = line ++ [newline]
  complete : ∀ line, line ++ [newline] <+: content → line.length < block →
    line ++ [newline] <+: bytes
  short : bytes.length ≤ block ∨ upToLine content = bytes

theorem upToLine_isPrefix (bytes : Bytes) : upToLine bytes <+: bytes := by
  induction bytes with
  | nil => exact List.prefix_rfl
  | cons b bytes ih =>
    rw [upToLine]
    split
    · exact ⟨bytes, rfl⟩
    · exact List.cons_prefix_cons.mpr ⟨rfl, ih⟩

theorem upToLine_ended (bytes : Bytes) :
    upToLine bytes = bytes ∨ ∃ line, upToLine bytes = line ++ [newline] := by
  induction bytes with
  | nil => exact .inl rfl
  | cons b bytes ih =>
    rw [upToLine]
    split
    · next hb => exact .inr ⟨[], by rw [hb]; rfl⟩
    · obtain hall | ⟨line, hline⟩ := ih
      · exact .inl (by rw [hall])
      · exact .inr ⟨b :: line, by rw [hline]; rfl⟩

theorem firstBlock_spec {block : ℕ} (hblock : 0 < block) (content : Bytes) :
    WholeLines block content (firstBlock block content) := by
  unfold firstBlock
  have hsplit := List.take_append_drop block content
  by_cases hshort : (content.take block).length < block
  · rw [if_pos hshort]
    have hall : content.take block = content := by
      rw [List.length_take] at hshort
      exact List.take_of_length_le (by omega)
    rw [hall] at hshort ⊢
    exact ⟨List.prefix_rfl, .inl rfl, fun line hline _ => hline, .inl (by omega)⟩
  rw [if_neg hshort]
  have hfull : (content.take block).length = block := by
    rw [List.length_take] at hshort ⊢
    omega
  cases hfind : rfind (content.take block) with
  | some cut =>
    obtain ⟨front, back, htake, rfl, hback⟩ := rfind_eq_some hfind
    have hcut : (content.take block).take (front.length + 1) = front ++ [newline] := by
      rw [htake, List.take_append, List.take_of_length_le (by omega), Nat.add_sub_cancel_left]
      rfl
    dsimp only
    rw [hcut]
    have hlength := congrArg List.length htake
    rw [hfull, List.length_append, List.length_cons] at hlength
    refine ⟨?_, .inr ⟨front, rfl⟩, ?_, .inl ?_⟩
    · have hfront : front ++ [newline] <+: content.take block := ⟨back, by rw [htake]; simp⟩
      exact hfront.trans (List.take_prefix block content)
    · intro line hline hless
      have hin : line ++ [newline] <+: front ++ [newline] ++ back := by
        rw [List.append_assoc, List.singleton_append, ← htake, List.prefix_take_iff]
        exact ⟨hline, by rw [List.length_append, List.length_singleton]; omega⟩
      obtain hle | ⟨more, hmore⟩ := List.prefix_or_prefix_of_prefix hin (List.prefix_append _ back)
      · exact hle
      -- a longer line would end behind the last newline
      obtain rfl | ⟨init, last, rfl⟩ := List.eq_nil_or_concat more
      · exact ⟨[], by simpa using hmore.symm⟩
      · obtain ⟨rest, hrest⟩ := hin
        rw [← hmore, List.append_assoc, List.append_cancel_left_eq] at hrest
        rw [List.concat_eq_append, ← List.append_assoc] at hmore
        obtain ⟨-, hlast⟩ := List.append_inj' hmore rfl
        rw [List.singleton_inj] at hlast
        rw [← hrest, hlast] at hback
        exact absurd (by simp) hback
    · rw [List.length_append, List.length_singleton]
      omega
  | none =>
    have hnone := not_mem_of_rfind hfind
    have hrest : (content.drop block).length < content.length + 1 := by
      rw [List.length_drop]
      omega
    have hline := upToLine_append_of_not_mem hnone (content.drop block)
    rw [hsplit] at hline
    dsimp only
    rw [onward_eq hblock hrest, ← hline]
    refine ⟨upToLine_isPrefix content, upToLine_ended content, ?_, .inr rfl⟩
    intro line hfirst hless
    have hin : line ++ [newline] <+: content.take block :=
      List.prefix_take_iff.mpr ⟨hfirst, by rw [List.length_append, List.length_singleton]; omega⟩
    exact absurd (hin.subset (List.mem_append_right line (List.mem_singleton_self newline))) hnone

/-! ## The first block of an array -/

theorem newline_mem_encode {c : Char} (h : newline ∈ String.utf8EncodeChar c) : c = '\n' := by
  have hwide : ∀ n, 0x80 ≤ n → n < 0x100 → newline ≠ UInt8.ofNat n := by
    intro n hlow hhigh heq
    have hnat := congrArg UInt8.toNat heq
    rw [UInt8.toNat_ofNat_of_lt' hhigh] at hnat
    change 0x0A = n at hnat
    omega
  delta String.utf8EncodeChar at h
  dsimp only at h
  split at h
  · next hascii =>
    rw [List.mem_singleton] at h
    have hnat := congrArg UInt8.toNat h
    rw [UInt8.toNat_ofNat_of_lt' (by simp only [UInt8.size]; omega)] at hnat
    have hval : c.val = 0x0A := UInt32.toNat_inj.mp hnat.symm
    exact Char.ext hval
  split at h
  · simp only [List.mem_cons, List.not_mem_nil, or_false] at h
    obtain h | h := h <;> exact absurd h (hwide _ (by omega) (by omega))
  split at h
  · simp only [List.mem_cons, List.not_mem_nil, or_false] at h
    obtain h | h | h := h <;> exact absurd h (hwide _ (by omega) (by omega))
  · simp only [List.mem_cons, List.not_mem_nil, or_false] at h
    obtain h | h | h | h := h <;> exact absurd h (hwide _ (by omega) (by omega))

theorem newline_mem_utf8 {text : Text} (h : newline ∈ utf8 text) : '\n' ∈ text := by
  obtain ⟨c, hc, hin⟩ := List.mem_flatMap.mp h
  rw [newline_mem_encode hin] at hc
  exact hc

/-- The lines, each with a newline behind it. -/
def joined (lines : List Bytes) : Bytes := lines.flatMap (· ++ [newline])

theorem joined_cons (line : Bytes) (lines : List Bytes) :
    joined (line :: lines) = line ++ [newline] ++ joined lines := List.flatMap_cons

theorem joined_append (first second : List Bytes) :
    joined (first ++ second) = joined first ++ joined second := List.flatMap_append

theorem joined_take_succ {lines : List Bytes} {k : ℕ} (h : k < lines.length) :
    joined (lines.take (k + 1)) = joined (lines.take k) ++ (lines[k] ++ [newline]) := by
  have hone : joined [lines[k]] = lines[k] ++ [newline] := List.flatMap_singleton _ _
  rw [List.take_succ_eq_append_getElem h, joined_append, hone]

/-- What ends with a newline ends with a line. -/
theorem take_of_prefix {lines : List Bytes} (hsingle : ∀ line ∈ lines, newline ∉ line)
    {front : Bytes} (h : front ++ [newline] <+: joined lines) :
    ∃ k, 0 < k ∧ k ≤ lines.length ∧ front ++ [newline] = joined (lines.take k) := by
  induction lines generalizing front with
  | nil => simp [joined] at h
  | cons line lines ih =>
    have hline : newline ∉ line := hsingle line List.mem_cons_self
    rw [joined_cons] at h
    obtain hle | hle := List.prefix_or_prefix_of_prefix h (List.prefix_append _ (joined lines))
    · have hsame : front ++ [newline] = line ++ [newline] := by
        obtain ⟨rest, hrest⟩ := hle
        obtain rfl | ⟨init, last, rfl⟩ := List.eq_nil_or_concat rest
        · simpa using hrest
        · rw [List.concat_eq_append, ← List.append_assoc] at hrest
          obtain ⟨hfront, -⟩ := List.append_inj' hrest rfl
          rw [← hfront] at hline
          exact absurd (by simp) hline
      refine ⟨1, Nat.one_pos, by simp, ?_⟩
      rw [hsame]
      simp [joined]
    · obtain ⟨rest, hrest⟩ := hle
      obtain rfl | ⟨init, last, rfl⟩ := List.eq_nil_or_concat rest
      · refine ⟨1, Nat.one_pos, by simp, ?_⟩
        rw [← hrest]
        simp [joined]
      · have hends := hrest
        rw [List.concat_eq_append, ← List.append_assoc] at hends
        obtain ⟨-, hlast⟩ := List.append_inj' hends rfl
        rw [← hrest, List.prefix_append_right_inj, List.concat_eq_append, hlast] at h
        obtain ⟨k, hpos, hk, htake⟩ :=
          ih (fun line hmem => hsingle line (List.mem_cons_of_mem _ hmem)) h
        refine ⟨k + 1, Nat.succ_pos k, by simpa using hk, ?_⟩
        rw [List.take_succ_cons, joined_cons, ← htake, ← hrest, List.concat_eq_append, hlast]

/-- Whole lines are the first of the lines: no line is cut, and the next one does not fit. -/
theorem WholeLines.eq_take {block : ℕ} {lines : List Bytes} {bytes : Bytes}
    (h : WholeLines block (joined lines) bytes) (hsingle : ∀ line ∈ lines, newline ∉ line) :
    ∃ k ≤ lines.length, bytes = joined (lines.take k) ∧ (lines = [] ∨ 0 < k) ∧
      (k < lines.length → block < (joined (lines.take (k + 1))).length) := by
  obtain rfl | ⟨front, rfl⟩ := h.ended
  · refine ⟨lines.length, Nat.le_refl _, by rw [List.take_length], ?_, ?_⟩
    · rw [← List.length_eq_zero_iff]
      omega
    · omega
  · obtain ⟨k, hpos, hk, htake⟩ := take_of_prefix hsingle h.front
    refine ⟨k, hk, htake, .inr hpos, ?_⟩
    intro hlt
    by_contra hfits
    have hnext := joined_take_succ hlt
    rw [← List.append_assoc] at hnext
    have hin : joined (lines.take k) ++ lines[k] ++ [newline] <+: joined lines := by
      refine ⟨joined (lines.drop (k + 1)), ?_⟩
      rw [← hnext, ← joined_append, List.take_append_drop]
    have hlength := congrArg List.length hnext
    rw [List.length_append, List.length_singleton] at hlength
    have hle := (h.complete _ hin (by omega)).length_le
    rw [htake, List.length_append, List.length_append, List.length_singleton] at hle
    omega

/-! ## Opening a file -/

/-- A file as JSON Lines. -/
inductive Lines
  | raw (source : List Bytes)
  | array (reader : Reader)

/-- `lines_opener`: `peeked` are the pieces that the file comes in until it is rewound, and `source`
those that it comes in afterwards. -/
def openLines (peeked source : List Bytes) : Except ReadError (Option Lines) := do
  match ← detectShape peeked with
  | .empty => pure none
  | .array => pure (some (.array (start source)))
  | .lines => pure (some (.raw source))


theorem fileText_shape {text : Text} {values : List JsonValue}
    (h : loads text = .ok (.array values)) :
    shapeOf text = .ok .array := by
  unfold loads at h
  obtain ⟨⟨value, rest⟩, hdecode, h₁⟩ := bind_eq_ok.mp h
  dsimp only at h₁
  split at h₁
  · obtain rfl := Except.ok.inj h₁
    obtain ⟨behind, hskip, -⟩ := scanOnce_array hdecode
    unfold shapeOf
    rw [hskip]
    rfl
  · exact nomatch h₁

theorem single_of_lines {lines : List Text} {values : List JsonValue}
    (h : List.Forall₂ LineOf lines values) : ∀ line ∈ lines, '\n' ∉ line := by
  induction h with
  | nil => simp
  | cons hline hrest ih =>
    intro line hmem
    obtain rfl | hmem := List.mem_cons.mp hmem
    · exact hline.single
    · exact ih line hmem

end DataQ.FlatFiles.ArrayLines
