import DataQ.Foundations.Text
import Mathlib.Tactic.Common

/-! # Percent-encoding

`urllib.parse.quote` with no safe characters of the caller's, and `unquote_to_bytes`. What is quoted
is read back; what has an escape in it is not read as it stands. -/

namespace DataQ.Percent
set_option autoImplicit false

abbrev Bytes := List UInt8

/-- `text.encode()`. -/
def utf8 (text : Text) : Bytes := text.flatMap String.utf8EncodeChar

/-- `_ALWAYS_SAFE`. -/
def alwaysSafe : Text :=
  "ABCDEFGHIJKLMNOPQRSTUVWXYZabcdefghijklmnopqrstuvwxyz0123456789_.-~".toList

def hexDigits : Text := "0123456789ABCDEF".toList

def hexDigit (n : ℕ) : Char := hexDigits.getD n '0'

def hexValue (c : Char) : Option ℕ :=
  if c.isDigit then some (c.toNat - '0'.toNat)
  else if 'A' ≤ c ∧ c ≤ 'F' then some (c.toNat - 'A'.toNat + 10)
  else if 'a' ≤ c ∧ c ≤ 'f' then some (c.toNat - 'a'.toNat + 10)
  else none

def quoteByte (b : UInt8) : Text :=
  if Char.ofNat b.toNat ∈ alwaysSafe then [Char.ofNat b.toNat]
  else ['%', hexDigit (b.toNat / 16), hexDigit (b.toNat % 16)]

/-- `quote(text, safe="")`. -/
def quote (text : Text) : Text := (utf8 text).flatMap quoteByte

/-- `unquote_to_bytes`. -/
def unquoteToBytes : Text → Bytes
  | [] => []
  | '%' :: a :: b :: rest =>
    match hexValue a, hexValue b with
    | some hi, some lo => UInt8.ofNat (16 * hi + lo) :: unquoteToBytes rest
    | _, _ => utf8 ['%'] ++ unquoteToBytes (a :: b :: rest)
  | c :: rest => String.utf8EncodeChar c ++ unquoteToBytes rest

/-- Every `%` begins an escape. -/
def wellEscaped : Text → Bool
  | [] => true
  | '%' :: a :: b :: rest => (hexValue a).isSome && (hexValue b).isSome && wellEscaped rest
  | c :: rest => c ≠ '%' && wellEscaped rest

theorem hexValue_hexDigit {n : ℕ} (h : n < 16) : hexValue (hexDigit n) = some n := by
  interval_cases n <;> decide

theorem unquoteToBytes_cons {c : Char} (h : c ≠ '%') (rest : Text) :
    unquoteToBytes (c :: rest) = String.utf8EncodeChar c ++ unquoteToBytes rest := by
  rw [unquoteToBytes]
  rintro a b rest rfl
  exact absurd rfl h

theorem unquoteToBytes_quoteByte (b : UInt8) (rest : Text) :
    unquoteToBytes (quoteByte b ++ rest) = b :: unquoteToBytes rest := by
  unfold quoteByte
  split
  · next hsafe =>
    have hall : alwaysSafe.all (fun c =>
        c ≠ '%' && String.utf8EncodeChar c = [UInt8.ofNat c.toNat]) = true := by decide
    have hchosen := List.all_eq_true.mp hall _ hsafe
    rw [Bool.and_eq_true, decide_eq_true_eq, decide_eq_true_eq] at hchosen
    obtain ⟨hne, hone⟩ := hchosen
    have hlt : b.toNat < 256 := b.toNat_lt
    have hvalid : b.toNat.isValidChar := .inl (by omega)
    have hchar : (Char.ofNat b.toNat).toNat = b.toNat := by
      rw [Char.ofNat, dif_pos hvalid]
      rfl
    rw [List.singleton_append, unquoteToBytes_cons hne, hone, hchar, UInt8.ofNat_toNat]
    rfl
  · have hlt : b.toNat < 256 := b.toNat_lt
    have hhi := hexValue_hexDigit (show b.toNat / 16 < 16 by omega)
    have hlo := hexValue_hexDigit (show b.toNat % 16 < 16 by omega)
    have hsum : 16 * (b.toNat / 16) + b.toNat % 16 = b.toNat := by omega
    simp only [List.cons_append, List.nil_append, unquoteToBytes, hhi, hlo, hsum,
      UInt8.ofNat_toNat]

/-- What is quoted is read back as its bytes. -/
theorem unquoteToBytes_quote (text : Text) : unquoteToBytes (quote text) = utf8 text := by
  unfold quote
  induction utf8 text with
  | nil => rfl
  | cons b bytes ih => rw [List.flatMap_cons, unquoteToBytes_quoteByte, ih]

theorem mem_quote {text : Text} {c : Char} (h : c ∈ quote text) : c ∈ alwaysSafe ∨ c = '%' := by
  obtain ⟨b, -, hc⟩ := List.mem_flatMap.mp h
  unfold quoteByte at hc
  split at hc
  · next hsafe =>
    obtain rfl := List.mem_singleton.mp hc
    exact .inl hsafe
  · have hdigit {n : ℕ} (hn : n < 16) : hexDigit n ∈ alwaysSafe := by
      interval_cases n <;> decide
    have hlt : b.toNat < 256 := b.toNat_lt
    simp only [List.mem_cons, List.not_mem_nil, or_false] at hc
    obtain rfl | rfl | rfl := hc
    · exact .inr rfl
    · exact .inl (hdigit (by omega))
    · exact .inl (hdigit (by omega))

theorem quote_ne_nil {text : Text} (h : text ≠ []) : quote text ≠ [] := by
  intro hnil
  have hempty : utf8 text = [] := by rw [← unquoteToBytes_quote, hnil, unquoteToBytes]
  obtain ⟨c, rest, rfl⟩ := List.exists_cons_of_ne_nil h
  rw [utf8, List.flatMap_cons, List.append_eq_nil_iff] at hempty
  exact String.utf8EncodeChar_ne_nil hempty.1

theorem unquoteToBytes_of_plain {text : Text} (h : '%' ∉ text) :
    unquoteToBytes text = utf8 text := by
  induction text with
  | nil => rfl
  | cons c rest ih =>
    rw [List.mem_cons, not_or] at h
    rw [unquoteToBytes_cons (Ne.symm h.1), ih h.2]
    rfl

theorem utf8_cons (c : Char) (rest : Text) :
    utf8 (c :: rest) = String.utf8EncodeChar c ++ utf8 rest := List.flatMap_cons

/-- An escape is read as fewer bytes than it is written with. -/
theorem length_unquoteToBytes {text : Text} (h : wellEscaped text = true) :
    (unquoteToBytes text).length ≤ (utf8 text).length ∧
      ('%' ∈ text → (unquoteToBytes text).length < (utf8 text).length) := by
  induction text using wellEscaped.induct with
  | case1 => simp [unquoteToBytes]
  | case2 a b rest ih =>
    simp only [wellEscaped, Bool.and_eq_true] at h
    obtain ⟨⟨hhi, hlo⟩, hrest⟩ := h
    obtain ⟨hi, hhi⟩ := Option.isSome_iff_exists.mp hhi
    obtain ⟨lo, hlo⟩ := Option.isSome_iff_exists.mp hlo
    have hle := (ih hrest).1
    have ha := List.length_pos_iff.mpr (String.utf8EncodeChar_ne_nil (c := a))
    have hb := List.length_pos_iff.mpr (String.utf8EncodeChar_ne_nil (c := b))
    have hp := List.length_pos_iff.mpr (String.utf8EncodeChar_ne_nil (c := '%'))
    have hlength : (unquoteToBytes ('%' :: a :: b :: rest)).length =
        (unquoteToBytes rest).length + 1 := by
      simp only [unquoteToBytes, hhi, hlo, List.length_cons]
    rw [hlength, utf8_cons, utf8_cons, utf8_cons, List.length_append, List.length_append,
      List.length_append]
    omega
  | case3 c rest hnot ih =>
    have hne : c ≠ '%' ∧ wellEscaped rest = true := by
      rw [wellEscaped] at h
      · simpa using h
      · exact hnot
    obtain ⟨hle, hlt⟩ := ih hne.2
    rw [unquoteToBytes_cons hne.1, utf8_cons, List.length_append, List.length_append]
    refine ⟨by omega, fun hmem => ?_⟩
    have hrest := hlt ((List.mem_cons.mp hmem).resolve_left (Ne.symm hne.1))
    omega

theorem unquoteToBytes_eq_iff {text : Text} (h : wellEscaped text = true) :
    unquoteToBytes text = utf8 text ↔ '%' ∉ text := by
  constructor
  · intro heq hmem
    have hlt := (length_unquoteToBytes h).2 hmem
    rw [heq] at hlt
    omega
  · exact unquoteToBytes_of_plain

end DataQ.Percent
