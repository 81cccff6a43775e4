import DataQ.Foundations.Percent
import DataQ.Foundations.RecordReaders

/-! # Decoding UTF-8

The incremental decoders `utf-8` and `utf-8-sig`: they take a byte at a time, and now and then a
byte ends a character. -/

namespace DataQ.Utf8
open DataQ.Percent (Bytes)
open DataQ.RecordReaders
set_option autoImplicit false

/-- A character that so many bytes are owed of: the bounds of the next one, and the bits so far. -/
structure Pending where
  owed : ℕ
  low : ℕ
  high : ℕ
  bits : ℕ
  deriving DecidableEq, Repr

def Pending.none : Pending := ⟨0, 0, 0, 0⟩

/-- The first byte of a character. -/
def first (b : ℕ) : Except Unit (Pending × Option Char) :=
  if b < 0x80 then .ok (.none, some (Char.ofNat b))
  else if 0xC2 ≤ b ∧ b ≤ 0xDF then .ok (⟨1, 0x80, 0xBF, b - 0xC0⟩, none)
  else if b = 0xE0 then .ok (⟨2, 0xA0, 0xBF, 0⟩, none)
  else if b = 0xED then .ok (⟨2, 0x80, 0x9F, 0xD⟩, none)
  else if 0xE1 ≤ b ∧ b ≤ 0xEF then .ok (⟨2, 0x80, 0xBF, b - 0xE0⟩, none)
  else if b = 0xF0 then .ok (⟨3, 0x90, 0xBF, 0⟩, none)
  else if 0xF1 ≤ b ∧ b ≤ 0xF3 then .ok (⟨3, 0x80, 0xBF, b - 0xF0⟩, none)
  else if b = 0xF4 then .ok (⟨3, 0x80, 0x8F, 4⟩, none)
  else .error ()

def step (s : Pending) (byte : UInt8) : Except Unit (Pending × Option Char) :=
  if s.owed = 0 then first byte.toNat
  else if s.low ≤ byte.toNat ∧ byte.toNat ≤ s.high then
    let bits := s.bits * 64 + (byte.toNat - 0x80)
    if s.owed = 1 then .ok (.none, some (Char.ofNat bits))
    else .ok (⟨s.owed - 1, 0x80, 0xBF, bits⟩, none)
  else .error ()

/-- `utf-8`. -/
def reader : RecordReader UInt8 Char Unit where
  State := Pending
  start := .none
  step := step
  finish s := if s.owed = 0 then .ok none else .error ()

/-- `codecs.BOM_UTF8`. -/
def bom : Bytes := [0xEF, 0xBB, 0xBF]

/-- Before the byte order mark is there or is ruled out, so many bytes of it are held back. -/
inductive Signed
  | mark (matched : ℕ)
  | body (s : Pending)
  deriving DecidableEq, Repr

def signedStep : Signed → UInt8 → Except Unit (Signed × Option Char)
  | .mark k, byte =>
    if bom[k]? = some byte then .ok (if k = 2 then .body .none else .mark (k + 1), none)
    else
      match reader.feed reader.start (bom.take k) with
      | .error e => .error e
      | .ok (s, _) => (step s byte).map fun (s, c) => (.body s, c)
  | .body s, byte => (step s byte).map fun (s, c) => (.body s, c)

/-- `utf-8-sig`. At the end it lets go of a mark that was cut short. -/
def signedReader : RecordReader UInt8 Char Unit where
  State := Signed
  start := .mark 0
  step := signedStep
  finish
    | .mark _ => .ok none
    | .body s => reader.finish s

/-! ## The byte order mark -/

theorem readAll_body (s : Pending) (bytes : Bytes) :
    signedReader.readAll (.body s) bytes = reader.readAll s bytes :=
  @RecordReader.readAll_embedded _ _ _ reader signedReader Signed.body (fun _ _ => rfl)
    (fun _ => rfl) s bytes

theorem readAll_bom (bytes : Bytes) :
    signedReader.readAll signedReader.start (bom ++ bytes) = reader.readAll reader.start bytes :=
  readAll_body .none bytes

/-- A byte that rules the mark out lets go of what was held back. -/
theorem readAll_mark {k : ℕ} {s : Pending} {b : UInt8}
    (hfeed : reader.feed reader.start (bom.take k) = .ok (s, [])) (hb : bom[k]? ≠ some b)
    (bytes : Bytes) :
    signedReader.readAll (.mark k) (b :: bytes) =
      reader.readAll reader.start (bom.take k ++ b :: bytes) := by
  have hstep : signedReader.step (.mark k) b =
      (reader.step s b).map fun (s, c) => (.body s, c) := by
    change signedStep (.mark k) b = _
    rw [signedStep, if_neg hb, hfeed]
    rfl
  rw [RecordReader.readAll_append hfeed]
  cases h : reader.step s b with
  | error e =>
    rw [h] at hstep
    rw [RecordReader.readAll_of_error h, RecordReader.readAll_of_error hstep]
    rfl
  | ok next =>
    obtain ⟨s', c⟩ := next
    rw [h] at hstep
    cases c with
    | none =>
      have hbody := readAll_body s' bytes
      rw [RecordReader.readAll_of_none h, RecordReader.readAll_of_none hstep, hbody]
      cases reader.readAll s' bytes <;> rfl
    | some c =>
      have hbody := readAll_body s' bytes
      rw [RecordReader.readAll_of_some h, RecordReader.readAll_of_some hstep, hbody]
      cases reader.readAll s' bytes <;> rfl

/-- Where no byte order mark comes, `utf-8-sig` reads what `utf-8` does. -/
theorem readAll_unsigned {bytes : Bytes} (h : ¬ bom <+: bytes) (hcut : ¬ bytes <+: bom) :
    signedReader.readAll signedReader.start bytes = reader.readAll reader.start bytes := by
  cases bytes with
  | nil => exact absurd List.nil_prefix hcut
  | cons b bytes =>
    by_cases hfirst : b = 0xEF
    · subst hfirst
      cases bytes with
      | nil => exact absurd ⟨[0xBB, 0xBF], rfl⟩ hcut
      | cons b bytes =>
        by_cases hsecond : b = 0xBB
        · subst hsecond
          cases bytes with
          | nil => exact absurd ⟨[0xBF], rfl⟩ hcut
          | cons b bytes =>
            have hthird : b ≠ 0xBF := by
              rintro rfl
              exact h ⟨bytes, rfl⟩
            exact @readAll_mark 2 _ b rfl (by simpa [bom] using hthird.symm) bytes
        · exact @readAll_mark 1 _ b rfl (by simpa [bom] using Ne.symm hsecond) bytes
    · exact @readAll_mark 0 _ b rfl (by simpa [bom] using Ne.symm hfirst) bytes

/-! ## The first character -/

/-- No `ASCII` character has begun: what is owed makes one at or above `0x80`. -/
def Pending.Wide (s : Pending) : Prop :=
  0x80 ≤ s.low ∧ s.owed ≠ 0 ∧ (s.owed = 1 → 2 ≤ s.bits) ∧
    (s.owed ≠ 1 → 2 ≤ s.bits * 64 + (s.low - 0x80))

theorem wide_of_first {b : UInt8} (hb : 0x80 ≤ b.toNat) {s : Pending} {c : Option Char}
    (h : first b.toNat = .ok (s, c)) : c = none ∧ s.Wide := by
  have hlt := b.toNat_lt
  unfold first at h
  rw [if_neg (by omega)] at h
  split at h
  · obtain ⟨rfl, rfl⟩ := Prod.mk.inj (Except.ok.inj h)
    exact ⟨rfl, by simp [Pending.Wide]; omega⟩
  split at h
  · obtain ⟨rfl, rfl⟩ := Prod.mk.inj (Except.ok.inj h)
    exact ⟨rfl, by simp [Pending.Wide]⟩
  split at h
  · obtain ⟨rfl, rfl⟩ := Prod.mk.inj (Except.ok.inj h)
    exact ⟨rfl, by simp [Pending.Wide]⟩
  split at h
  · obtain ⟨rfl, rfl⟩ := Prod.mk.inj (Except.ok.inj h)
    exact ⟨rfl, by simp [Pending.Wide]; omega⟩
  split at h
  · obtain ⟨rfl, rfl⟩ := Prod.mk.inj (Except.ok.inj h)
    exact ⟨rfl, by simp [Pending.Wide]⟩
  split at h
  · obtain ⟨rfl, rfl⟩ := Prod.mk.inj (Except.ok.inj h)
    exact ⟨rfl, by simp [Pending.Wide]; omega⟩
  split at h
  · obtain ⟨rfl, rfl⟩ := Prod.mk.inj (Except.ok.inj h)
    exact ⟨rfl, by simp [Pending.Wide]⟩
  · exact nomatch h

theorem head_of_wide {s : Pending} (h : s.Wide) {bytes : Bytes} {text : Text}
    (hread : reader.readAll s bytes = .ok text) :
    ∃ n rest, 0x80 ≤ n ∧ text = Char.ofNat n :: rest := by
  induction bytes generalizing s with
  | nil =>
    have hfinish : reader.finish s = .error () := if_neg h.2.1
    have hnil : reader.readAll s [] = (reader.finish s).map Option.toList := rfl
    rw [hnil, hfinish] at hread
    exact nomatch hread
  | cons b bytes ih =>
    obtain ⟨hlow, howed, hone, hmore⟩ := h
    have hstep : reader.step s b = step s b := rfl
    rw [step, if_neg howed] at hstep
    by_cases hb : s.low ≤ b.toNat ∧ b.toNat ≤ s.high
    · rw [if_pos hb] at hstep
      by_cases hlast : s.owed = 1
      · rw [if_pos hlast] at hstep
        rw [RecordReader.readAll_of_some hstep] at hread
        obtain ⟨rest, -, htext⟩ := Fallible.map_eq_ok.mp hread
        have hbits := hone hlast
        exact ⟨_, rest, by omega, htext.symm⟩
      · rw [if_neg hlast] at hstep
        rw [RecordReader.readAll_of_none hstep] at hread
        have hbits := hmore hlast
        refine ih ⟨Nat.le_refl _, ?_, ?_, ?_⟩ hread <;> dsimp only <;> omega
    · rw [if_neg hb] at hstep
      rw [RecordReader.readAll_of_error hstep] at hread
      exact nomatch hread

/-- A byte below `0x80` is the character; any other begins one at or above `0x80`. -/
theorem readAll_cons {b : UInt8} {bytes : Bytes} {text : Text}
    (h : reader.readAll reader.start (b :: bytes) = .ok text) :
    (b.toNat < 0x80 ∧ ∃ rest, text = Char.ofNat b.toNat :: rest ∧
        reader.readAll reader.start bytes = .ok rest) ∨
      (0x80 ≤ b.toNat ∧ ∃ n rest, 0x80 ≤ n ∧ text = Char.ofNat n :: rest) := by
  have hstep : reader.step reader.start b = first b.toNat := rfl
  by_cases hb : b.toNat < 0x80
  · left
    rw [first, if_pos hb] at hstep
    rw [RecordReader.readAll_of_some hstep] at h
    obtain ⟨rest, hrest, htext⟩ := Fallible.map_eq_ok.mp h
    exact ⟨hb, rest, htext.symm, hrest⟩
  · right
    cases hfirst : first b.toNat with
    | error e =>
      rw [RecordReader.readAll_of_error (hstep.trans hfirst)] at h
      exact nomatch h
    | ok next =>
      obtain ⟨s, c⟩ := next
      obtain ⟨rfl, hwide⟩ := wide_of_first (by omega) hfirst
      rw [RecordReader.readAll_of_none (hstep.trans hfirst)] at h
      exact ⟨by omega, head_of_wide hwide h⟩

end DataQ.Utf8
