import DataQ.Foundations.Fallible
import DataQ.Foundations.Text

/-! # Scanning JSON

Python's `json.JSONDecoder`: a value is scanned off the front of a text. What is scanned does not
depend on the text behind it, nor on which white space stands between the tokens. -/

namespace DataQ.JsonScanner
open DataQ.Fallible
set_option autoImplicit false

/-- A decoded value. A number is its literal. A string is its UTF-16 code units, where two escaped
surrogates are the character that they stand for. -/
inductive JsonValue
  | null
  | bool (value : Bool)
  | number (literal : Text)
  | constant (name : Text)
  | str (units : List ℕ)
  | array (items : List JsonValue)
  | object (members : List (List ℕ × JsonValue))

inductive Fault
  /-- `JSONDecodeError`. -/
  | decode
  /-- `ValueError`, of an `int` with too many digits. -/
  | value
  deriving DecidableEq, Repr

/-- `sys.get_int_max_str_digits()`. -/
def maxStrDigits : ℕ := 4300

def blank (c : Char) : Bool := c = ' ' || c = '\t' || c = '\n' || c = '\r'

def skip (text : Text) : Text := text.dropWhile blank

/-! ## Strings -/

def hexDigit (c : Char) : Option ℕ :=
  if c.isDigit then some (c.toNat - 48)
  else if 'a' ≤ c ∧ c ≤ 'f' then some (c.toNat - 87)
  else if 'A' ≤ c ∧ c ≤ 'F' then some (c.toNat - 55)
  else none

/-- The unit of an escape, from behind its backslash, and the text after it. -/
def escape : Text → Option (ℕ × Text)
  | [] => none
  | c :: cs =>
    if c = 'u' then
      match cs with
      | d₁ :: d₂ :: d₃ :: d₄ :: rest => do
        let a ← hexDigit d₁
        let b ← hexDigit d₂
        let c ← hexDigit d₃
        let d ← hexDigit d₄
        some (((a * 16 + b) * 16 + c) * 16 + d, rest)
      | _ => none
    else (plain c).map fun unit => (unit, cs)
where
  plain (c : Char) : Option ℕ :=
    if c = '"' ∨ c = '\\' ∨ c = '/' then some c.toNat
    else if c = 'b' then some 8
    else if c = 'f' then some 12
    else if c = 'n' then some 10
    else if c = 'r' then some 13
    else if c = 't' then some 9
    else none

def unitsOf (c : Char) : List ℕ :=
  if c.toNat < 0x10000 then [c.toNat]
  else [0xD800 + (c.toNat - 0x10000) / 0x400, 0xDC00 + (c.toNat - 0x10000) % 0x400]

/-- `scanstring`, from behind the opening quote. -/
def scanString : ℕ → Text → Except Fault (List ℕ × Text)
  | 0, _ => .error .decode
  | _ + 1, [] => .error .decode
  | n + 1, c :: cs =>
    if c = '"' then .ok ([], cs)
    else if c = '\\' then
      match escape cs with
      | none => .error .decode
      | some (unit, rest) => (scanString n rest).map fun (units, rest) => (unit :: units, rest)
    else if c.toNat < 32 then .error .decode
    else (scanString n cs).map fun (units, rest) => (unitsOf c ++ units, rest)

/-! ## Literals -/

/-- The characters that numbers and names are made of. -/
def literalChar (c : Char) : Bool := c.isAlphanum || c = '+' || c = '-' || c = '.'

/-- `-?(0|[1-9][0-9]*)`, and what follows. -/
def wholePart (literal : Text) : Option Text :=
  let digits := if literal.head? = some '-' then literal.tail else literal
  if digits.head? = some '0' then some digits.tail
  else if (digits.takeWhile Char.isDigit) = [] then none
  else some (digits.dropWhile Char.isDigit)

/-- `(\.[0-9]+)?`. -/
def fractionPart (rest : Text) : Option Text :=
  if rest.head? = some '.' then
    if rest.tail.takeWhile Char.isDigit = [] then none else some (rest.tail.dropWhile Char.isDigit)
  else some rest

/-- `([eE][-+]?[0-9]+)?` up to the end. -/
def exponentPart (rest : Text) : Bool :=
  match rest with
  | [] => true
  | c :: cs =>
    let digits := if cs.head? = some '+' ∨ cs.head? = some '-' then cs.tail else cs
    (c = 'e' || c = 'E') && digits ≠ [] && digits.all Char.isDigit

def isNumber (literal : Text) : Bool :=
  (((wholePart literal).bind fractionPart).map exponentPart).getD false

/-- The digits of an `int`. -/
def intDigits (literal : Text) : ℕ :=
  if literal.all fun c => c.isDigit || c = '-' then literal.countP Char.isDigit else 0

def literalValue (literal : Text) : Except Fault JsonValue :=
  if literal = "null".toList then .ok .null
  else if literal = "true".toList then .ok (.bool true)
  else if literal = "false".toList then .ok (.bool false)
  else if literal = "NaN".toList ∨ literal = "Infinity".toList ∨ literal = "-Infinity".toList then
    .ok (.constant literal)
  else if isNumber literal then
    if maxStrDigits < intDigits literal then .error .value else .ok (.number literal)
  else .error .decode

/-- A number or a name. Where a numeral or a name is only a part of the characters that one is made
of, there is no delimiter behind it, and the value that it stands in is refused. -/
def scanLiteral (text : Text) : Except Fault (JsonValue × Text) :=
  (literalValue (text.takeWhile literalChar)).map fun value =>
    (value, text.dropWhile literalChar)

/-! ## Values -/

/-- The text behind a character that has to be there. -/
def after (c : Char) : Text → Except Fault Text
  | [] => .error .decode
  | d :: rest => if d = c then .ok rest else .error .decode

/-- An object or an array, from behind its opening character. -/
def bracketed {β : Type} (closing : Char) (wrap : List β → JsonValue)
    (scan : Text → Except Fault (List β × Text)) (cs : Text) : Except Fault (JsonValue × Text) :=
  if (skip cs).head? = some closing then .ok (wrap [], (skip cs).tail)
  else (scan (skip cs)).map fun (items, rest) => (wrap items, rest)

mutual

/-- `scan_once`. -/
def scanOnce : ℕ → Text → Except Fault (JsonValue × Text)
  | 0, _ => .error .decode
  | _ + 1, [] => .error .decode
  | n + 1, c :: cs =>
    if c = '"' then (scanString (cs.length + 1) cs).map fun (units, rest) => (.str units, rest)
    else if c = '{' then bracketed '}' .object (scanMembers n) cs
    else if c = '[' then bracketed ']' .array (scanItems n) cs
    else scanLiteral (c :: cs)

/-- The rest of an object, from a key on. -/
def scanMembers : ℕ → Text → Except Fault (List (List ℕ × JsonValue) × Text)
  | 0, _ => .error .decode
  | n + 1, text => do
    let text ← after '"' text
    let (key, text) ← scanString (text.length + 1) text
    let text ← after ':' (skip text)
    let (value, text) ← scanOnce n (skip text)
    match skip text with
    | [] => .error .decode
    | d :: text =>
      if d = '}' then .ok ([(key, value)], text)
      else if d = ',' then
        (scanMembers n (skip text)).map fun (members, rest) => ((key, value) :: members, rest)
      else .error .decode

/-- The rest of an array, from an item on. -/
def scanItems : ℕ → Text → Except Fault (List JsonValue × Text)
  | 0, _ => .error .decode
  | n + 1, text => do
    let (item, text) ← scanOnce n text
    match skip text with
    | [] => .error .decode
    | d :: text =>
      if d = ']' then .ok ([item], text)
      else if d = ',' then
        (scanItems n (skip text)).map fun (items, rest) => (item :: items, rest)
      else .error .decode

end

/-- `JSONDecoder.raw_decode`. -/
def rawDecode (text : Text) : Except Fault (JsonValue × Text) := scanOnce (text.length + 1) text

/-- `json.loads`. -/
def loads (text : Text) : Except Fault JsonValue := do
  let (value, rest) ← rawDecode (skip text)
  if skip rest = [] then .ok value else .error .decode

/-! ## A change of the white space -/

/-- Line ends become spaces, or nothing changes. -/
def Refits (f : Char → Char) : Prop := ∀ c, f c = c ∨ (c = '\n' ∨ c = '\r') ∧ f c = ' '

variable {f : Char → Char}

theorem refits_id : Refits id := fun _ => .inl rfl

theorem Refits.of_not_blank (hf : Refits f) {c : Char} (h : blank c = false) : f c = c := by
  obtain hc | ⟨rfl | rfl, -⟩ := hf c
  · exact hc
  · exact absurd h (by decide)
  · exact absurd h (by decide)

theorem Refits.blank (hf : Refits f) {c : Char} (h : blank c = true) : blank (f c) = true := by
  obtain hc | ⟨-, hc⟩ := hf c
  · rw [hc, h]
  · rw [hc]
    rfl

theorem Refits.map (hf : Refits f) {piece : Text} (h : ∀ c ∈ piece, JsonScanner.blank c = false) :
    piece.map f = piece := by
  have hmap : ∀ c ∈ piece, f c = id c := fun c hc => hf.of_not_blank (h c hc)
  rw [List.map_congr_left hmap, List.map_id]

/-- A piece begins with no white space. -/
def Begins (piece : Text) : Prop := ∃ c cs, piece = c :: cs ∧ blank c = false

/-- A literal ends before the text. -/
def Stops (text : Text) : Prop := ∀ c ∈ text.head?, literalChar c = false

theorem skip_split (text : Text) : ∃ white, text = white ++ skip text ∧
    ∀ c ∈ white, blank c = true :=
  ⟨text.takeWhile blank, List.takeWhile_append_dropWhile.symm, fun _ hc =>
    List.mem_takeWhile_imp hc⟩

theorem skip_of_begins {text : Text} (h : Begins text) : skip text = text := by
  obtain ⟨c, cs, rfl, hc⟩ := h
  rw [skip, List.dropWhile_cons_of_neg (by simp [hc])]

theorem skip_white (hf : Refits f) {white text : Text} (hwhite : ∀ c ∈ white, blank c = true)
    (h : Begins text) : skip (white.map f ++ text) = text := by
  have hmap : ∀ c ∈ white.map f, blank c = true := by
    intro c hc
    obtain ⟨d, hd, rfl⟩ := List.mem_map.mp hc
    exact hf.blank (hwhite d hd)
  rw [skip, List.dropWhile_append_of_pos hmap]
  exact skip_of_begins h

theorem Begins.append {piece : Text} (h : Begins piece) (text : Text) : Begins (piece ++ text) := by
  obtain ⟨c, cs, rfl, hc⟩ := h
  exact ⟨c, cs ++ text, rfl, hc⟩

theorem Begins.map (hf : Refits f) {piece : Text} (h : Begins piece) : Begins (piece.map f) := by
  obtain ⟨c, cs, rfl, hc⟩ := h
  refine ⟨c, cs.map f, ?_, hc⟩
  rw [List.map_cons, hf.of_not_blank hc]

/-! ## What is scanned depends on its own text -/

/-- A class of characters that holds no white space. -/
theorem not_blank_of_class {p : Char → Bool} (hp : " \t\n\r".toList.any p = false) {c : Char}
    (h : p c = true) : blank c = false := by
  have hne : ∀ d ∈ " \t\n\r".toList, c ≠ d := by
    rintro d hd rfl
    rw [List.any_eq_false] at hp
    exact hp c hd h
  simp [blank, hne ' ' (by decide), hne '\t' (by decide), hne '\n' (by decide),
    hne '\r' (by decide)]

theorem not_blank_of_hexDigit {c : Char} {d : ℕ} (h : hexDigit c = some d) : blank c = false :=
  not_blank_of_class (p := fun c => (hexDigit c).isSome) (by decide) (by simp [h])

theorem not_blank_of_plain {c : Char} {d : ℕ} (h : escape.plain c = some d) : blank c = false :=
  not_blank_of_class (p := fun c => (escape.plain c).isSome) (by decide) (by simp [h])

theorem not_blank_of_literalChar {c : Char} (h : literalChar c = true) : blank c = false :=
  not_blank_of_class (by decide) h

theorem escape_spec {text rest : Text} {unit : ℕ} (h : escape text = some (unit, rest)) :
    ∃ piece, text = piece ++ rest ∧ (∀ c ∈ piece, blank c = false) ∧
      ∀ t, escape (piece ++ t) = some (unit, t) := by
  cases text with
  | nil => exact nomatch h
  | cons c cs =>
    by_cases hc : c = 'u'
    · subst hc
      match cs, h with
      | [], h => exact nomatch h
      | [_], h => exact nomatch h
      | [_, _], h => exact nomatch h
      | [_, _, _], h => exact nomatch h
      | d₁ :: d₂ :: d₃ :: d₄ :: cs, h =>
        simp only [escape, if_true] at h
        obtain ⟨a, ha, h⟩ := Option.bind_eq_some_iff.mp h
        obtain ⟨b, hb, h⟩ := Option.bind_eq_some_iff.mp h
        obtain ⟨c, hc, h⟩ := Option.bind_eq_some_iff.mp h
        obtain ⟨d, hd, h⟩ := Option.bind_eq_some_iff.mp h
        obtain ⟨rfl, rfl⟩ := Prod.mk.inj (Option.some.inj h)
        refine ⟨['u', d₁, d₂, d₃, d₄], rfl, ?_, ?_⟩
        · simp only [List.forall_mem_cons]
          exact ⟨rfl, not_blank_of_hexDigit ha, not_blank_of_hexDigit hb, not_blank_of_hexDigit hc,
            not_blank_of_hexDigit hd, by simp⟩
        · intro t
          simp [escape, ha, hb, hc, hd]
    · simp only [escape, if_neg hc] at h
      obtain ⟨unit', hplain, h⟩ := Option.map_eq_some_iff.mp h
      obtain ⟨rfl, rfl⟩ := Prod.mk.inj h
      refine ⟨[c], rfl, ?_, ?_⟩
      · simp [not_blank_of_plain hplain]
      · intro t
        simp [escape, hc, hplain]

theorem scanString_spec (hf : Refits f) {n : ℕ} {text rest : Text} {units : List ℕ}
    (h : scanString n text = .ok (units, rest)) :
    ∃ piece, text = piece ++ rest ∧ piece ≠ [] ∧
      ∀ t m, piece.length ≤ m → scanString m (piece.map f ++ t) = .ok (units, t) := by
  induction n generalizing text units with
  | zero => exact nomatch h
  | succ n ih =>
    cases text with
    | nil => exact nomatch h
    | cons c cs =>
      rw [scanString] at h
      by_cases hquote : c = '"'
      · subst hquote
        obtain ⟨rfl, rfl⟩ := Prod.mk.inj (Except.ok.inj h)
        refine ⟨['"'], rfl, by simp, ?_⟩
        intro t m hm
        obtain ⟨m, rfl⟩ : ∃ k, m = k + 1 := ⟨m - 1, by simp at hm; omega⟩
        have hkeep : f '"' = '"' := hf.of_not_blank (by decide)
        simp [scanString, hkeep]
      · rw [if_neg hquote] at h
        by_cases hback : c = '\\'
        · subst hback
          rw [if_pos rfl] at h
          cases hescape : escape cs with
          | none => simp [hescape] at h
          | some escaped =>
            obtain ⟨unit, behind⟩ := escaped
            simp only [hescape] at h
            obtain ⟨⟨units', rest'⟩, hrest, hmk⟩ := map_eq_ok.mp h
            obtain ⟨rfl, rfl⟩ := Prod.mk.inj hmk
            obtain ⟨piece, hpiece, hplain, hread⟩ := escape_spec hescape
            obtain ⟨more, hmore, -, hscan⟩ := ih hrest
            dsimp only at hmore hscan
            refine ⟨'\\' :: (piece ++ more), ?_, by simp, ?_⟩
            · rw [hpiece, hmore]
              simp
            · intro t m hm
              obtain ⟨m, rfl⟩ : ∃ k, m = k + 1 := ⟨m - 1, by simp at hm; omega⟩
              have hkeep : f '\\' = '\\' := hf.of_not_blank (by decide)
              have hshort : more.length ≤ m := by
                rw [List.length_cons, List.length_append] at hm
                omega
              rw [List.map_cons, hkeep, List.map_append, hf.map hplain, List.cons_append,
                List.append_assoc, scanString, if_neg (by decide), if_pos rfl, hread]
              simp only [hscan t m hshort, Except.map]
        · rw [if_neg hback] at h
          by_cases hcontrol : c.toNat < 32
          · rw [if_pos hcontrol] at h
            exact nomatch h
          · rw [if_neg hcontrol] at h
            obtain ⟨⟨units', rest'⟩, hrest, hmk⟩ := map_eq_ok.mp h
            obtain ⟨rfl, rfl⟩ := Prod.mk.inj hmk
            obtain ⟨more, hmore, -, hscan⟩ := ih hrest
            have hkeep : f c = c := by
              obtain hc | ⟨rfl | rfl, -⟩ := hf c
              · exact hc
              · exact absurd hcontrol (by decide)
              · exact absurd hcontrol (by decide)
            refine ⟨c :: more, by rw [hmore]; rfl, by simp, ?_⟩
            intro t m hm
            obtain ⟨m, rfl⟩ : ∃ k, m = k + 1 := ⟨m - 1, by simp at hm; omega⟩
            have hshort : more.length ≤ m := by simpa using hm
            rw [List.map_cons, hkeep, List.cons_append, scanString, if_neg hquote, if_neg hback,
              if_neg hcontrol, hscan t m hshort]
            rfl

theorem scanLiteral_spec {text rest : Text} {value : JsonValue}
    (h : scanLiteral text = .ok (value, rest)) :
    ∃ piece, text = piece ++ rest ∧ piece ≠ [] ∧ (∀ c ∈ piece, literalChar c = true) ∧
      ∀ t, Stops t → scanLiteral (piece ++ t) = .ok (value, t) := by
  obtain ⟨value', hvalue, hmk⟩ := map_eq_ok.mp h
  obtain ⟨rfl, rfl⟩ := Prod.mk.inj hmk
  have hchars : ∀ c ∈ text.takeWhile literalChar, literalChar c = true := fun _ hc =>
    List.mem_takeWhile_imp hc
  refine ⟨text.takeWhile literalChar, List.takeWhile_append_dropWhile.symm, ?_, hchars, ?_⟩
  · intro hempty
    rw [hempty] at hvalue
    exact nomatch hvalue
  · intro t ht
    have htake : (text.takeWhile literalChar ++ t).takeWhile literalChar =
        text.takeWhile literalChar := by
      rw [List.takeWhile_append_of_pos hchars]
      cases t with
      | nil => simp
      | cons c cs => simp [ht c rfl]
    have hdrop : (text.takeWhile literalChar ++ t).dropWhile literalChar = t := by
      rw [List.dropWhile_append_of_pos hchars]
      cases t with
      | nil => rfl
      | cons c cs => simp [ht c rfl]
    rw [scanLiteral, htake, hdrop, hvalue]
    rfl

theorem after_eq_ok {c : Char} {text rest : Text} : after c text = .ok rest ↔ text = c :: rest := by
  cases text with
  | nil => simp [after]
  | cons d ds =>
    by_cases hd : d = c
    · simp [after, hd]
    · simp [after, hd]

theorem after_cons (c : Char) (rest : Text) : after c (c :: rest) = .ok rest := if_pos rfl

/-- A value is scanned off its own text: what is behind that has to be no part of a literal. -/
def OnceSpec (f : Char → Char) (n : ℕ) : Prop :=
  ∀ {text rest : Text} {value : JsonValue}, scanOnce n text = .ok (value, rest) →
    ∃ piece, text = piece ++ rest ∧ Begins piece ∧ piece.head? ≠ some ']' ∧ ∀ t m,
      Stops t ∨ piece.head? = some '{' → piece.length < m →
        scanOnce m (piece.map f ++ t) = .ok (value, t)

def MembersSpec (f : Char → Char) (n : ℕ) : Prop :=
  ∀ {text rest : Text} {members : List (List ℕ × JsonValue)},
    scanMembers n text = .ok (members, rest) →
    ∃ piece, text = piece ++ rest ∧ Begins piece ∧ piece.head? ≠ some '}' ∧ ∀ t m,
      piece.length < m → scanMembers m (piece.map f ++ t) = .ok (members, t)

def ItemsSpec (f : Char → Char) (n : ℕ) : Prop :=
  ∀ {text rest : Text} {items : List JsonValue}, scanItems n text = .ok (items, rest) →
    ∃ piece, text = piece ++ rest ∧ Begins piece ∧ piece.head? ≠ some ']' ∧ ∀ t m,
      piece.length < m → scanItems m (piece.map f ++ t) = .ok (items, t)

theorem stops_white {white text : Text} (hwhite : ∀ c ∈ white, blank c = true) {d : Char}
    (hd : literalChar d = false) (hf : Refits f) : Stops (white.map f ++ d :: text) := by
  intro c hc
  cases white with
  | nil =>
    obtain rfl := Option.some.inj hc
    exact hd
  | cons w ws =>
    obtain rfl := Option.some.inj hc
    have hblank := hf.blank (hwhite w List.mem_cons_self)
    by_contra hliteral
    rw [Bool.not_eq_false] at hliteral
    rw [not_blank_of_literalChar hliteral] at hblank
    exact nomatch hblank

/-- What an entry of an object consists of, and what is behind it. -/
theorem scanMembers_eq_ok {n : ℕ} {text rest : Text} {members : List (List ℕ × JsonValue)} :
    scanMembers (n + 1) text = .ok (members, rest) ↔
      ∃ text₁ key text₂ text₃ value text₄ d text₅, text = '"' :: text₁ ∧
        scanString (text₁.length + 1) text₁ = .ok (key, text₂) ∧ skip text₂ = ':' :: text₃ ∧
        scanOnce n (skip text₃) = .ok (value, text₄) ∧ skip text₄ = d :: text₅ ∧
        (d = '}' ∧ members = [(key, value)] ∧ rest = text₅ ∨
          d = ',' ∧ ∃ others, scanMembers n (skip text₅) = .ok (others, rest) ∧
            members = (key, value) :: others) := by
  rw [scanMembers]
  constructor
  · intro h
    obtain ⟨text₁, hquote, h₁⟩ := bind_eq_ok.mp h
    obtain ⟨⟨key, text₂⟩, hkey, h₂⟩ := bind_eq_ok.mp h₁
    obtain ⟨text₃, hcolon, h₃⟩ := bind_eq_ok.mp h₂
    obtain ⟨⟨value, text₄⟩, hvalue, h₄⟩ := bind_eq_ok.mp h₃
    dsimp only at h₄ hcolon
    cases hnext : skip text₄ with
    | nil =>
      rw [hnext] at h₄
      exact nomatch h₄
    | cons d text₅ =>
      refine ⟨text₁, key, text₂, text₃, value, text₄, d, text₅, after_eq_ok.mp hquote, hkey,
        after_eq_ok.mp hcolon, hvalue, hnext, ?_⟩
      rw [hnext] at h₄
      dsimp only at h₄
      by_cases hclose : d = '}'
      · rw [if_pos hclose] at h₄
        obtain ⟨rfl, rfl⟩ := Prod.mk.inj (Except.ok.inj h₄)
        exact .inl ⟨hclose, rfl, rfl⟩
      · rw [if_neg hclose] at h₄
        by_cases hcomma : d = ','
        · rw [if_pos hcomma] at h₄
          obtain ⟨⟨others, behind⟩, hothers, hmk⟩ := map_eq_ok.mp h₄
          obtain ⟨rfl, rfl⟩ := Prod.mk.inj hmk
          exact .inr ⟨hcomma, others, hothers, rfl⟩
        · rw [if_neg hcomma] at h₄
          exact nomatch h₄
  · rintro ⟨text₁, key, text₂, text₃, value, text₄, d, text₅, rfl, hkey, hcolon, hvalue, hnext,
      hlast⟩
    refine bind_eq_ok.mpr ⟨text₁, after_cons '"' text₁, bind_eq_ok.mpr ⟨(key, text₂), hkey,
      bind_eq_ok.mpr ⟨text₃, after_eq_ok.mpr hcolon, bind_eq_ok.mpr ⟨(value, text₄), hvalue, ?_⟩⟩⟩⟩
    dsimp only
    rw [hnext]
    dsimp only
    obtain ⟨rfl, rfl, rfl⟩ | ⟨rfl, others, hothers, rfl⟩ := hlast
    · exact if_pos rfl
    · rw [if_neg (by decide), if_pos rfl, hothers]
      rfl

theorem scanItems_eq_ok {n : ℕ} {text rest : Text} {items : List JsonValue} :
    scanItems (n + 1) text = .ok (items, rest) ↔
      ∃ item text₁ d text₂, scanOnce n text = .ok (item, text₁) ∧ skip text₁ = d :: text₂ ∧
        (d = ']' ∧ items = [item] ∧ rest = text₂ ∨
          d = ',' ∧ ∃ others, scanItems n (skip text₂) = .ok (others, rest) ∧
            items = item :: others) := by
  rw [scanItems]
  constructor
  · intro h
    obtain ⟨⟨item, text₁⟩, hitem, h₁⟩ := bind_eq_ok.mp h
    dsimp only at h₁
    cases hnext : skip text₁ with
    | nil =>
      rw [hnext] at h₁
      exact nomatch h₁
    | cons d text₂ =>
      refine ⟨item, text₁, d, text₂, hitem, hnext, ?_⟩
      rw [hnext] at h₁
      dsimp only at h₁
      by_cases hclose : d = ']'
      · rw [if_pos hclose] at h₁
        obtain ⟨rfl, rfl⟩ := Prod.mk.inj (Except.ok.inj h₁)
        exact .inl ⟨hclose, rfl, rfl⟩
      · rw [if_neg hclose] at h₁
        by_cases hcomma : d = ','
        · rw [if_pos hcomma] at h₁
          obtain ⟨⟨others, behind⟩, hothers, hmk⟩ := map_eq_ok.mp h₁
          obtain ⟨rfl, rfl⟩ := Prod.mk.inj hmk
          exact .inr ⟨hcomma, others, hothers, rfl⟩
        · rw [if_neg hcomma] at h₁
          exact nomatch h₁
  · rintro ⟨item, text₁, d, text₂, hitem, hnext, hlast⟩
    refine bind_eq_ok.mpr ⟨(item, text₁), hitem, ?_⟩
    dsimp only
    rw [hnext]
    dsimp only
    obtain ⟨rfl, rfl, rfl⟩ | ⟨rfl, others, hothers, rfl⟩ := hlast
    · exact if_pos rfl
    · rw [if_neg (by decide), if_pos rfl, hothers]
      rfl

theorem membersSpec_succ (hf : Refits f) {n : ℕ} (honce : OnceSpec f n)
    (hmembers : MembersSpec f n) : MembersSpec f (n + 1) := by
  intro text rest members h
  obtain ⟨text₁, key, text₂, text₃, value, text₄, d, text₅, htext, hkey, hcolon, hvalue, hnext,
    hlast⟩ := scanMembers_eq_ok.mp h
  obtain ⟨keyPiece, hkeyPiece, -, hreadKey⟩ := scanString_spec hf hkey
  obtain ⟨white₁, htext₂, hwhite₁⟩ := skip_split text₂
  obtain ⟨white₂, htext₃, hwhite₂⟩ := skip_split text₃
  obtain ⟨valuePiece, hpiece, hbegins, -, hreadValue⟩ := honce hvalue
  obtain ⟨white₃, htext₄, hwhite₃⟩ := skip_split text₄
  have hquote : f '"' = '"' := hf.of_not_blank (by decide)
  have hkeepColon : f ':' = ':' := hf.of_not_blank (by decide)
  have hd : literalChar d = false ∧ blank d = false := by
    obtain ⟨rfl, -, -⟩ | ⟨rfl, -⟩ := hlast <;> decide
  -- the entry is read again with its white space changed, whatever is behind it
  have hentry : ∀ (t : Text) (m : ℕ), valuePiece.length < m → ∃ t₁ t₂ t₃ t₄,
      ('"' :: keyPiece ++ white₁ ++ ':' :: white₂ ++ valuePiece ++ white₃).map f ++ d :: t =
        '"' :: t₁ ∧
      scanString (t₁.length + 1) t₁ = .ok (key, t₂) ∧ skip t₂ = ':' :: t₃ ∧
      scanOnce m (skip t₃) = .ok (value, t₄) ∧ skip t₄ = d :: t := by
    intro t m hm
    refine ⟨keyPiece.map f ++ (white₁.map f ++ ':' :: (white₂.map f ++ (valuePiece.map f ++
      (white₃.map f ++ d :: t)))), white₁.map f ++ ':' :: (white₂.map f ++ (valuePiece.map f ++
      (white₃.map f ++ d :: t))), white₂.map f ++ (valuePiece.map f ++ (white₃.map f ++ d :: t)),
      white₃.map f ++ d :: t, ?_, ?_, skip_white hf hwhite₁ ⟨':', _, rfl, rfl⟩, ?_,
      skip_white hf hwhite₃ ⟨d, t, rfl, hd.2⟩⟩
    · simp [hquote, hkeepColon]
    · apply hreadKey
      rw [List.length_append, List.length_map]
      omega
    · rw [skip_white hf hwhite₂ ((hbegins.map hf).append _)]
      exact hreadValue _ m (.inl (stops_white hwhite₃ hd.1 hf)) hm
  have hwhole : text = '"' :: keyPiece ++ white₁ ++ ':' :: white₂ ++ valuePiece ++ white₃ ++
      d :: text₅ := by
    rw [htext, hkeyPiece, htext₂, hcolon, htext₃, hpiece, htext₄, hnext]
    simp
  obtain ⟨hclose, rfl, rfl⟩ | ⟨hcomma, others, hothers, rfl⟩ := hlast
  · refine ⟨'"' :: keyPiece ++ white₁ ++ ':' :: white₂ ++ valuePiece ++ white₃ ++ [d], ?_,
      ⟨'"', _, by simp; rfl, rfl⟩, by simp, ?_⟩
    · rw [hwhole]
      simp
    · intro t m hm
      obtain ⟨m, rfl⟩ : ∃ k, m = k + 1 := ⟨m - 1, by omega⟩
      have hshort : valuePiece.length < m := by
        simp at hm
        omega
      obtain ⟨t₁, t₂, t₃, t₄, ht₁, hkey', hcolon', hvalue', hnext'⟩ := hentry t m hshort
      have hkeepClose : f d = d := hf.of_not_blank hd.2
      apply scanMembers_eq_ok.mpr
      refine ⟨t₁, key, t₂, t₃, value, t₄, d, t, ?_, hkey', hcolon', hvalue', hnext',
        .inl ⟨hclose, rfl, rfl⟩⟩
      rw [← ht₁, List.map_append, List.append_assoc]
      simp [hkeepClose]
  · obtain ⟨white₄, htext₅, hwhite₄⟩ := skip_split text₅
    obtain ⟨otherPiece, hotherPiece, hotherBegins, -, hreadOthers⟩ := hmembers hothers
    refine ⟨'"' :: keyPiece ++ white₁ ++ ':' :: white₂ ++ valuePiece ++ white₃ ++
      d :: (white₄ ++ otherPiece), ?_, ⟨'"', _, by simp; rfl, rfl⟩, by simp, ?_⟩
    · rw [hwhole, htext₅, hotherPiece]
      simp
    · intro t m hm
      obtain ⟨m, rfl⟩ : ∃ k, m = k + 1 := ⟨m - 1, by omega⟩
      have hshort : valuePiece.length < m ∧ otherPiece.length < m := by
        simp at hm
        omega
      have hkeepComma : f d = d := hf.of_not_blank hd.2
      obtain ⟨t₁, t₂, t₃, t₄, ht₁, hkey', hcolon', hvalue', hnext'⟩ :=
        hentry (white₄.map f ++ (otherPiece.map f ++ t)) m hshort.1
      apply scanMembers_eq_ok.mpr
      refine ⟨t₁, key, t₂, t₃, value, t₄, d, _, ?_, hkey', hcolon', hvalue', hnext',
        .inr ⟨hcomma, others, ?_, rfl⟩⟩
      · rw [← ht₁, List.map_append, List.append_assoc]
        simp [hkeepComma]
      · rw [skip_white hf hwhite₄ ((hotherBegins.map hf).append _)]
        exact hreadOthers t m hshort.2

theorem itemsSpec_succ (hf : Refits f) {n : ℕ} (honce : OnceSpec f n) (hitems : ItemsSpec f n) :
    ItemsSpec f (n + 1) := by
  intro text rest items h
  obtain ⟨item, text₁, d, text₂, hitem, hnext, hlast⟩ := scanItems_eq_ok.mp h
  obtain ⟨itemPiece, hitemPiece, hbegins, hopen, hreadItem⟩ := honce hitem
  obtain ⟨white₁, htext₁, hwhite₁⟩ := skip_split text₁
  have hd : literalChar d = false ∧ blank d = false := by
    obtain ⟨rfl, -, -⟩ | ⟨rfl, -⟩ := hlast <;> decide
  have hkeep : f d = d := hf.of_not_blank hd.2
  have hne : itemPiece ≠ [] := by
    obtain ⟨c, cs, rfl, -⟩ := hbegins
    simp
  have hhead : ∀ more : Text, (itemPiece ++ more).head? ≠ some ']' := by
    intro more
    rw [List.head?_append_of_ne_nil _ hne]
    exact hopen
  have hread : ∀ (t : Text) (m : ℕ), itemPiece.length < m →
      scanOnce m (itemPiece.map f ++ (white₁.map f ++ d :: t)) =
          .ok (item, white₁.map f ++ d :: t) ∧
        skip (white₁.map f ++ d :: t) = d :: t := fun t m hm =>
    ⟨hreadItem _ m (.inl (stops_white hwhite₁ hd.1 hf)) hm,
      skip_white hf hwhite₁ ⟨d, t, rfl, hd.2⟩⟩
  rw [hnext] at htext₁
  obtain ⟨hclose, rfl, rfl⟩ | ⟨hcomma, others, hothers, rfl⟩ := hlast
  · refine ⟨itemPiece ++ (white₁ ++ [d]), ?_, hbegins.append _, hhead _, ?_⟩
    · rw [hitemPiece, htext₁]
      simp
    · intro t m hm
      obtain ⟨m, rfl⟩ : ∃ k, m = k + 1 := ⟨m - 1, by omega⟩
      have hshort : itemPiece.length < m := by
        simp at hm
        omega
      obtain ⟨hitem', hnext'⟩ := hread t m hshort
      have htext : (itemPiece ++ (white₁ ++ [d])).map f ++ t =
          itemPiece.map f ++ (white₁.map f ++ d :: t) := by
        simp [hkeep]
      rw [htext]
      exact scanItems_eq_ok.mpr ⟨item, _, d, t, hitem', hnext', .inl ⟨hclose, rfl, rfl⟩⟩
  · obtain ⟨white₂, htext₂, hwhite₂⟩ := skip_split text₂
    obtain ⟨otherPiece, hotherPiece, hotherBegins, -, hreadOthers⟩ := hitems hothers
    refine ⟨itemPiece ++ (white₁ ++ d :: (white₂ ++ otherPiece)), ?_, hbegins.append _, hhead _, ?_⟩
    · rw [hitemPiece, htext₁, htext₂, hotherPiece]
      simp
    · intro t m hm
      obtain ⟨m, rfl⟩ : ∃ k, m = k + 1 := ⟨m - 1, by omega⟩
      have hshort : itemPiece.length < m ∧ otherPiece.length < m := by
        simp at hm
        omega
      obtain ⟨hitem', hnext'⟩ := hread (white₂.map f ++ (otherPiece.map f ++ t)) m hshort.1
      have htext : (itemPiece ++ (white₁ ++ d :: (white₂ ++ otherPiece))).map f ++ t =
          itemPiece.map f ++ (white₁.map f ++ d :: (white₂.map f ++ (otherPiece.map f ++ t))) := by
        simp [hkeep]
      rw [htext]
      refine scanItems_eq_ok.mpr ⟨item, _, d, _, hitem', hnext', .inr ⟨hcomma, others, ?_, rfl⟩⟩
      rw [skip_white hf hwhite₂ ((hotherBegins.map hf).append _)]
      exact hreadOthers t m hshort.2

theorem bracketed_spec (hf : Refits f) {β : Type} {closing : Char} {wrap : List β → JsonValue}
    {scan : ℕ → Text → Except Fault (List β × Text)} {n : ℕ} {cs rest : Text} {value : JsonValue}
    (hclosing : blank closing = false)
    (hscan : ∀ {text rest : Text} {items : List β}, scan n text = .ok (items, rest) →
      ∃ piece, text = piece ++ rest ∧ Begins piece ∧ piece.head? ≠ some closing ∧ ∀ t m,
        piece.length < m → scan m (piece.map f ++ t) = .ok (items, t))
    (h : bracketed closing wrap (scan n) cs = .ok (value, rest)) :
    ∃ piece, cs = piece ++ rest ∧ ∀ t m, piece.length < m →
      bracketed closing wrap (scan m) (piece.map f ++ t) = .ok (value, t) := by
  obtain ⟨white, hcs, hwhite⟩ := skip_split cs
  unfold bracketed at h
  by_cases hempty : (skip cs).head? = some closing
  · rw [if_pos hempty] at h
    obtain ⟨rfl, rfl⟩ := Prod.mk.inj (Except.ok.inj h)
    have hskip : skip cs = closing :: (skip cs).tail := List.eq_cons_of_mem_head? hempty
    refine ⟨white ++ [closing], ?_, ?_⟩
    · rw [List.append_assoc, List.singleton_append, ← hskip, ← hcs]
    · intro t m _
      have hkeep : f closing = closing := hf.of_not_blank hclosing
      have hread : skip ((white ++ [closing]).map f ++ t) = closing :: t := by
        rw [List.map_append, List.append_assoc, List.map_singleton, hkeep]
        exact skip_white hf hwhite ⟨closing, t, rfl, hclosing⟩
      unfold bracketed
      rw [hread]
      exact if_pos rfl
  · rw [if_neg hempty] at h
    obtain ⟨⟨items, behind⟩, hitems, hmk⟩ := map_eq_ok.mp h
    obtain ⟨rfl, rfl⟩ := Prod.mk.inj hmk
    obtain ⟨piece, hpiece, hbegins, hhead, hread⟩ := hscan hitems
    refine ⟨white ++ piece, ?_, ?_⟩
    · rw [List.append_assoc, ← hpiece, ← hcs]
    · intro t m hm
      have hshort : piece.length < m := by
        rw [List.length_append] at hm
        omega
      have hskip : skip ((white ++ piece).map f ++ t) = piece.map f ++ t := by
        rw [List.map_append, List.append_assoc]
        exact skip_white hf hwhite ((hbegins.map hf).append _)
      have hother : (piece.map f ++ t).head? ≠ some closing := by
        obtain ⟨c, ds, rfl, hc⟩ := hbegins
        rw [List.map_cons, hf.of_not_blank hc]
        exact hhead
      unfold bracketed
      rw [hskip, if_neg hother, hread t m hshort]
      rfl

theorem onceSpec_succ (hf : Refits f) {n : ℕ} (hmembers : MembersSpec f n)
    (hitems : ItemsSpec f n) : OnceSpec f (n + 1) := by
  intro text rest value h
  cases text with
  | nil => exact nomatch h
  | cons c cs =>
    rw [scanOnce] at h
    by_cases hquote : c = '"'
    · subst hquote
      obtain ⟨⟨units, behind⟩, hstring, hmk⟩ := map_eq_ok.mp h
      obtain ⟨rfl, rfl⟩ := Prod.mk.inj hmk
      obtain ⟨piece, rfl, -, hread⟩ := scanString_spec hf hstring
      refine ⟨'"' :: piece, rfl, ⟨'"', piece, rfl, rfl⟩, by simp, ?_⟩
      intro t m _ hm
      obtain ⟨m, rfl⟩ : ∃ k, m = k + 1 := ⟨m - 1, by omega⟩
      have hkeep : f '"' = '"' := hf.of_not_blank (by decide)
      have hlong : piece.length ≤ (piece.map f ++ t).length + 1 := by
        rw [List.length_append, List.length_map]
        omega
      rw [List.map_cons, hkeep, List.cons_append, scanOnce, if_pos rfl, hread t _ hlong]
      rfl
    · rw [if_neg hquote] at h
      by_cases hobject : c = '{'
      · subst hobject
        rw [if_pos rfl] at h
        obtain ⟨piece, rfl, hread⟩ := bracketed_spec hf (by decide) hmembers h
        refine ⟨'{' :: piece, rfl, ⟨'{', piece, rfl, rfl⟩, by simp, ?_⟩
        intro t m _ hm
        obtain ⟨m, rfl⟩ : ∃ k, m = k + 1 := ⟨m - 1, by omega⟩
        have hkeep : f '{' = '{' := hf.of_not_blank (by decide)
        rw [List.map_cons, hkeep, List.cons_append, scanOnce, if_neg hquote, if_pos rfl]
        exact hread t m (by simpa using hm)
      · rw [if_neg hobject] at h
        by_cases harray : c = '['
        · subst harray
          rw [if_pos rfl] at h
          obtain ⟨piece, rfl, hread⟩ := bracketed_spec hf (by decide) hitems h
          refine ⟨'[' :: piece, rfl, ⟨'[', piece, rfl, rfl⟩, by simp, ?_⟩
          intro t m _ hm
          obtain ⟨m, rfl⟩ : ∃ k, m = k + 1 := ⟨m - 1, by omega⟩
          have hkeep : f '[' = '[' := hf.of_not_blank (by decide)
          rw [List.map_cons, hkeep, List.cons_append, scanOnce, if_neg hquote, if_neg hobject,
            if_pos rfl]
          exact hread t m (by simpa using hm)
        · rw [if_neg harray] at h
          obtain ⟨piece, hpiece, hne, hchars, hread⟩ := scanLiteral_spec h
          obtain ⟨c', piece', rfl⟩ := List.exists_cons_of_ne_nil hne
          obtain ⟨rfl, rfl⟩ := List.cons.inj hpiece
          have hliteral : literalChar c = true := hchars c List.mem_cons_self
          have hplain : ∀ d ∈ c :: piece', blank d = false := fun d hd =>
            not_blank_of_literalChar (hchars d hd)
          refine ⟨c :: piece', rfl, ⟨c, piece', rfl, not_blank_of_literalChar hliteral⟩, ?_, ?_⟩
          · intro hclose
            obtain rfl := Option.some.inj hclose
            exact absurd hliteral (by decide)
          · intro t m ht hm
            obtain ⟨m, rfl⟩ : ∃ k, m = k + 1 := ⟨m - 1, by omega⟩
            have hstops : Stops t := by
              obtain ht | ht := ht
              · exact ht
              · exact absurd (Option.some.inj ht) hobject
            rw [hf.map hplain, List.cons_append, scanOnce, if_neg hquote, if_neg hobject,
              if_neg harray, ← List.cons_append]
            exact hread t hstops

theorem scan_spec (hf : Refits f) (n : ℕ) : OnceSpec f n ∧ MembersSpec f n ∧ ItemsSpec f n := by
  induction n with
  | zero =>
    refine ⟨?_, ?_, ?_⟩
    · intro _ _ _ h
      exact nomatch h
    · intro _ _ _ h
      exact nomatch h
    · intro _ _ _ h
      exact nomatch h
  | succ n ih =>
    obtain ⟨honce, hmembers, hitems⟩ := ih
    exact ⟨onceSpec_succ hf hmembers hitems, membersSpec_succ hf honce hmembers,
      itemsSpec_succ hf honce hitems⟩

/-- The text of an object of this value, whatever is behind it, also where line ends in it became
spaces. -/
structure ObjectText (piece : Text) (value : JsonValue) : Prop where
  opened : piece.head? = some '{'
  scanned : ∀ f, Refits f → ∀ t m, piece.length < m →
    scanOnce m (piece.map f ++ t) = .ok (value, t)

theorem scanOnce_object {n : ℕ} {text rest : Text} {value : JsonValue}
    (h : scanOnce n text = .ok (value, rest)) (hopen : text.head? = some '{') :
    ∃ piece, text = piece ++ rest ∧ ObjectText piece value := by
  obtain ⟨piece, hpiece, ⟨c, cs, hcs, -⟩, -⟩ := (scan_spec refits_id _).1 h
  have hhead : piece.head? = some '{' := by
    rw [hpiece, hcs] at hopen
    rw [hcs]
    exact hopen
  refine ⟨piece, hpiece, hhead, ?_⟩
  intro f hf t m hm
  obtain ⟨piece', hpiece', -, -, hread⟩ := (scan_spec hf _).1 h
  obtain rfl : piece = piece' := List.append_cancel_right (hpiece.symm.trans hpiece')
  exact hread t m (.inr hhead) hm

theorem rawDecode_object {text rest : Text} {value : JsonValue}
    (h : rawDecode text = .ok (value, rest)) (hopen : text.head? = some '{') :
    ∃ piece, text = piece ++ rest ∧ ObjectText piece value := scanOnce_object h hopen

theorem ObjectText.rawDecode {piece : Text} {value : JsonValue} (h : ObjectText piece value)
    (t : Text) : JsonScanner.rawDecode (piece ++ t) = .ok (value, t) := by
  have hread := h.scanned id refits_id t ((piece ++ t).length + 1)
  rw [List.map_id] at hread
  apply hread
  rw [List.length_append]
  omega

theorem ObjectText.begins {piece : Text} {value : JsonValue} (h : ObjectText piece value) :
    Begins piece := by
  cases piece with
  | nil => exact nomatch h.opened
  | cons c cs =>
    obtain rfl := Option.some.inj h.opened
    exact ⟨'{', cs, rfl, rfl⟩

theorem ObjectText.loads {piece : Text} {value : JsonValue} (h : ObjectText piece value)
    {f : Char → Char} (hf : Refits f) : JsonScanner.loads (piece.map f) = .ok value := by
  have hread := h.scanned f hf [] ((piece.map f).length + 1)
    (by rw [List.length_map]; exact Nat.lt_succ_self _)
  rw [List.append_nil] at hread
  unfold JsonScanner.loads JsonScanner.rawDecode
  rw [skip_of_begins (h.begins.map hf), hread]
  rfl

theorem skip_skip (text : Text) : skip (skip text) = skip text := List.dropWhile_idempotent _ _

theorem length_skip_le (text : Text) : (skip text).length ≤ text.length :=
  List.length_dropWhile_le _ _

/-! ## Too many digits -/

/-- More digits than an `int` may have stand in a row. -/
def LongInt (text : Text) : Prop :=
  ∃ digits : Text, maxStrDigits < digits.length ∧ (∀ c ∈ digits, c.isDigit = true) ∧ digits <:+: text

theorem LongInt.of_isInfix {text whole : Text} (h : LongInt text) (hinside : text <:+: whole) :
    LongInt whole := by
  obtain ⟨digits, hlong, hall, hin⟩ := h
  exact ⟨digits, hlong, hall, hin.trans hinside⟩

theorem LongInt.of_append {front text : Text} (h : LongInt text) : LongInt (front ++ text) :=
  h.of_isInfix ⟨front, [], by simp⟩

theorem LongInt.of_skip {text : Text} (h : LongInt (skip text)) : LongInt text := by
  obtain ⟨white, htext, -⟩ := skip_split text
  rw [htext]
  exact h.of_append

/-- A number of digits and signs alone is its sign and its digits. -/
theorem digits_of_isNumber {literal : Text} (hnumber : isNumber literal = true)
    (hall : (literal.all fun c => c.isDigit || c = '-') = true) :
    ∃ sign digits : Text, literal = sign ++ digits ∧ (∀ c ∈ digits, c.isDigit = true) ∧
      sign.countP Char.isDigit = 0 := by
  have hend : ∀ rest : Text, (∀ c ∈ rest, (c.isDigit || c = '-') = true) →
      ((fractionPart rest).map exponentPart).getD false = true → rest = [] := by
    intro rest hrest hpart
    cases rest with
    | nil => rfl
    | cons c cs =>
      have hplain : ∀ d ∈ ['.', 'e', 'E'], c ≠ d := by
        rintro d hd rfl
        have hall : ∀ d ∈ ['.', 'e', 'E'], (d.isDigit || d = '-') = false := by
          simp
        have hc := hrest _ List.mem_cons_self
        rw [hall _ hd] at hc
        exact nomatch hc
      have hpoint : (c :: cs).head? ≠ some '.' := fun hhead =>
        hplain '.' (by decide) (Option.some.inj hhead)
      rw [fractionPart, if_neg hpoint] at hpart
      simp [exponentPart, hplain 'e' (by decide), hplain 'E' (by decide)] at hpart
  obtain ⟨sign, unsigned, hliteral, hsign, hunsigned⟩ : ∃ sign unsigned : Text,
      literal = sign ++ unsigned ∧ sign.countP Char.isDigit = 0 ∧
        wholePart literal = (if unsigned.head? = some '0' then some unsigned.tail
          else if unsigned.takeWhile Char.isDigit = [] then none
          else some (unsigned.dropWhile Char.isDigit)) := by
    by_cases hminus : literal.head? = some '-'
    · exact ⟨['-'], literal.tail, List.eq_cons_of_mem_head? hminus, by decide,
        by rw [wholePart, if_pos hminus]⟩
    · exact ⟨[], literal, rfl, rfl, by rw [wholePart, if_neg hminus]⟩
  have hchars : ∀ c ∈ unsigned, (c.isDigit || c = '-') = true := fun c hc =>
    List.all_eq_true.mp hall c (hliteral ▸ List.mem_append_right sign hc)
  unfold isNumber at hnumber
  rw [hunsigned] at hnumber
  refine ⟨sign, unsigned, hliteral, ?_, hsign⟩
  by_cases hzero : unsigned.head? = some '0'
  · rw [if_pos hzero] at hnumber
    have hsplit := List.eq_cons_of_mem_head? hzero
    have htail : unsigned.tail = [] := by
      refine hend _ (fun c hc => hchars c (List.mem_of_mem_tail hc)) ?_
      simpa using hnumber
    rw [hsplit, htail]
    simp
  · rw [if_neg hzero] at hnumber
    by_cases hnone : unsigned.takeWhile Char.isDigit = []
    · rw [if_pos hnone] at hnumber
      exact nomatch hnumber
    · rw [if_neg hnone] at hnumber
      have hrest : unsigned.dropWhile Char.isDigit = [] := by
        refine hend _ (fun c hc => hchars c ((List.dropWhile_sublist _).subset hc)) ?_
        simpa using hnumber
      exact List.dropWhile_eq_nil_iff.mp hrest

theorem literalValue_eq_value {literal : Text} (h : literalValue literal = .error .value) :
    LongInt literal := by
  unfold literalValue at h
  split at h
  · exact nomatch h
  split at h
  · exact nomatch h
  split at h
  · exact nomatch h
  split at h
  · exact nomatch h
  split at h
  · next hnumber =>
    split at h
    · next hlong =>
      unfold intDigits at hlong
      split at hlong
      · next hall =>
        obtain ⟨sign, digits, hliteral, hdigits, hsign⟩ := digits_of_isNumber hnumber hall
        refine ⟨digits, ?_, hdigits, sign, [], by simp [hliteral]⟩
        rw [hliteral, List.countP_append, hsign, Nat.zero_add] at hlong
        exact hlong.trans_le List.countP_le_length
      · exact absurd hlong (Nat.not_lt_zero _)
    · exact nomatch h
  · exact nomatch h

theorem scanString_ne_value (n : ℕ) (text : Text) : scanString n text ≠ .error .value := by
  induction n generalizing text with
  | zero => simp [scanString]
  | succ n ih =>
    cases text with
    | nil => simp [scanString]
    | cons c cs =>
      rw [scanString]
      split
      · exact nofun
      · split
        · split
          · exact nofun
          · next rest _ =>
            rw [ne_eq, map_eq_error]
            exact ih rest
        · split
          · exact nofun
          · rw [ne_eq, map_eq_error]
            exact ih cs

theorem after_ne_value (c : Char) (text : Text) : after c text ≠ .error .value := by
  cases text with
  | nil => exact nofun
  | cons d rest =>
    rw [after]
    split <;> exact nofun

theorem scanString_suffix {n : ℕ} {text rest : Text} {units : List ℕ}
    (h : scanString n text = .ok (units, rest)) : rest <:+ text := by
  obtain ⟨piece, rfl, -⟩ := scanString_spec refits_id h
  exact List.suffix_append piece rest

theorem scanOnce_suffix {n : ℕ} {text rest : Text} {value : JsonValue}
    (h : scanOnce n text = .ok (value, rest)) : rest <:+ text := by
  obtain ⟨piece, rfl, -⟩ := (scan_spec refits_id n).1 h
  exact List.suffix_append piece rest

/-- Only an `int` with too many digits raises another error than that of the decoder. -/
theorem scan_eq_value (n : ℕ) :
    (∀ text, scanOnce n text = .error .value → LongInt text) ∧
      (∀ text, scanMembers n text = .error .value → LongInt text) ∧
      ∀ text, scanItems n text = .error .value → LongInt text := by
  induction n with
  | zero => exact ⟨nofun, nofun, nofun⟩
  | succ n ih =>
    obtain ⟨honce, hmembers, hitems⟩ := ih
    have hlist : ∀ {β : Type} {closing : Char} {wrap : List β → JsonValue}
        {scan : Text → Except Fault (List β × Text)} {cs : Text},
        (∀ text, scan text = .error .value → LongInt text) →
        bracketed closing wrap scan cs = .error .value → LongInt cs := by
      intro β closing wrap scan cs hscan h
      unfold bracketed at h
      split at h
      · exact nomatch h
      · exact (hscan _ (map_eq_error.mp h)).of_skip
    refine ⟨?_, ?_, ?_⟩
    · intro text h
      cases text with
      | nil => exact nomatch h
      | cons c cs =>
        have hcons : ∀ {cs}, LongInt cs → LongInt (c :: cs) := fun hlong => @LongInt.of_append [c] _ hlong
        rw [scanOnce] at h
        split at h
        · exact absurd (map_eq_error.mp h) (scanString_ne_value _ _)
        · split at h
          · exact hcons (hlist hmembers h)
          · split at h
            · exact hcons (hlist hitems h)
            · refine (literalValue_eq_value (map_eq_error.mp h)).of_isInfix ?_
              exact (List.takeWhile_prefix _).isInfix
    · intro text h
      rw [scanMembers] at h
      obtain h | ⟨text₁, hquote, h₁⟩ := bind_eq_error.mp h
      · exact absurd h (after_ne_value _ _)
      obtain rfl := after_eq_ok.mp hquote
      obtain h₁ | ⟨⟨key, text₂⟩, hkey, h₂⟩ := bind_eq_error.mp h₁
      · exact absurd h₁ (scanString_ne_value _ _)
      obtain h₂ | ⟨text₃, hcolon, h₃⟩ := bind_eq_error.mp h₂
      · exact absurd h₂ (after_ne_value _ _)
      have hcolon := after_eq_ok.mp hcolon
      have hinside₃ : text₃ <:+: '"' :: text₁ := by
        have hskip : text₃ <:+ skip text₂ := by
          rw [hcolon]
          exact List.suffix_cons ':' text₃
        have hrest : skip text₂ <:+ text₂ := List.dropWhile_suffix _
        have hstring : text₂ <:+ text₁ := scanString_suffix hkey
        exact (((hskip.trans hrest).trans hstring).trans (List.suffix_cons _ _)).isInfix
      obtain h₃ | ⟨⟨value, text₄⟩, hvalue, h₄⟩ := bind_eq_error.mp h₃
      · exact ((honce _ h₃).of_skip).of_isInfix hinside₃
      dsimp only at h₄
      split at h₄
      · exact nomatch h₄
      · next d text₅ hnext =>
        split at h₄
        · exact nomatch h₄
        · split at h₄
          · refine ((hmembers _ (map_eq_error.mp h₄)).of_skip).of_isInfix ?_
            have hskip : text₅ <:+ skip text₄ := by
              rw [hnext]
              exact List.suffix_cons d text₅
            have hrest : skip text₄ <:+ text₄ := List.dropWhile_suffix _
            have honce := (scanOnce_suffix hvalue).trans (List.dropWhile_suffix _)
            exact (((hskip.trans hrest).trans honce).isInfix).trans hinside₃
          · exact nomatch h₄
    · intro text h
      rw [scanItems] at h
      obtain h | ⟨⟨item, text₁⟩, hitem, h₁⟩ := bind_eq_error.mp h
      · exact honce _ h
      dsimp only at h₁
      split at h₁
      · exact nomatch h₁
      · next d text₂ hnext =>
        split at h₁
        · exact nomatch h₁
        · split at h₁
          · refine ((hitems _ (map_eq_error.mp h₁)).of_skip).of_isInfix ?_
            have hskip : text₂ <:+ skip text₁ := by
              rw [hnext]
              exact List.suffix_cons d text₂
            have hrest : skip text₁ <:+ text₁ := List.dropWhile_suffix _
            exact ((hskip.trans hrest).trans (scanOnce_suffix hitem)).isInfix
          · exact nomatch h₁

end DataQ.JsonScanner
