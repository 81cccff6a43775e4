import Mathlib
import DataQ.Sql.Engines

/-! # What the guard lets through

The guard decides on its own reading of a query. Where the engine reads every construct that the
guard meets the same way, the two are left with the same code, and the guard's checks say of it
what they should, but for the end of the leading keyword. -/

namespace DataQ.Sql
open DataQ.Scanning
set_option autoImplicit false

/-- The engine takes the same constructs as the guard. -/
def SameReading (t : SqlType) (query : Text) : Prop :=
  agree (skipNoncode (identifierQuotes t)) (engine t).skip query.length [] query = true

/-- What the guard takes for code. -/
def guardCode (t : SqlType) (query : Text) : Text := (stripNoncode query (identifierQuotes t)).1

/-- Every character of the code that Python takes for white space is a blank of the engines. -/
def PlainBlanks (t : SqlType) (query : Text) : Prop :=
  ∀ c ∈ guardCode t query, pySpace c = true → asciiSpace c = true

/-- The engine's first word ends where its letters end. -/
def KeywordEnds (t : SqlType) (query : Text) : Prop :=
  ∀ c ∈ firstWord (engine t) (guardCode t query), c.isAlpha = true

instance (t : SqlType) (query : Text) : Decidable (SameReading t query) :=
  inferInstanceAs (Decidable (_ = _))

instance (t : SqlType) (query : Text) : Decidable (PlainBlanks t query) :=
  List.decidableBAll (fun c : Char => pySpace c = true → asciiSpace c = true) (guardCode t query)

instance (t : SqlType) (query : Text) : Decidable (KeywordEnds t query) :=
  List.decidableBAll (fun c : Char => c.isAlpha = true) (firstWord (engine t) (guardCode t query))

theorem executable_eq_guardCode {t : SqlType} {query : Text} (h : SameReading t query) :
    executable (engine t) query = guardCode t query :=
  (scan_eq_of_agree ' ' h).symm

/-! ## The analysed part of the code -/

theorem asciiSpace_pySpace {c : Char} (h : asciiSpace c = true) : pySpace c = true := by
  have hc : (9 ≤ c.toNat ∧ c.toNat ≤ 13) ∨ c.toNat = 32 := by simpa [asciiSpace] using h
  rcases hc with hc | hc
  · simp [pySpace, hc]
  · simp [pySpace, hc]

theorem analysis_frame {code : Text} (hblank : ∀ c ∈ code, pySpace c = true → asciiSpace c = true) :
    ∃ pre post, code = pre ++ analysis code ++ post ∧ (∀ c ∈ pre, asciiSpace c = true) ∧
      ∀ c ∈ post, trailing c = true := by
  let shorn := code.dropWhile pySpace
  have hpre : code.takeWhile pySpace ++ shorn = code := List.takeWhile_append_dropWhile
  have hstrip : pyStrip code ++ shorn.rtakeWhile pySpace = shorn :=
    List.rdropWhile_append_rtakeWhile
  have hpost : analysis code ++ (pyStrip code).rtakeWhile trailing = pyStrip code :=
    List.rdropWhile_append_rtakeWhile
  refine ⟨code.takeWhile pySpace,
    (pyStrip code).rtakeWhile trailing ++ shorn.rtakeWhile pySpace, ?_, ?_, ?_⟩
  · calc
      code = code.takeWhile pySpace ++ (pyStrip code ++ shorn.rtakeWhile pySpace) := by
        rw [hstrip, hpre]
      _ = _ := by rw [List.append_assoc, ← List.append_assoc (analysis code), hpost]
  · intro c hc
    have hmem : c ∈ code := (List.takeWhile_sublist pySpace).subset hc
    exact hblank c hmem (List.mem_takeWhile_imp hc)
  · intro c hc
    rcases List.mem_append.mp hc with hc | hc
    · exact List.mem_rtakeWhile_imp hc
    · have hshorn : c ∈ shorn := (List.rtakeWhile_suffix pySpace shorn).subset hc
      have hmem : c ∈ code := (List.dropWhile_suffix pySpace).subset hshorn
      rw [trailing, hblank c hmem (List.mem_rtakeWhile_imp hc), Bool.true_or]

theorem analysis_head {code rest : Text} {c : Char} (h : analysis code = c :: rest) :
    pySpace c = false := by
  have hprefix : analysis code <+: code.dropWhile pySpace :=
    (List.rdropWhile_prefix trailing _).trans (List.rdropWhile_prefix pySpace _)
  obtain ⟨tail, htail⟩ := hprefix
  rw [h] at htail
  exact Bool.eq_false_iff.mpr fun hspace => by
    have hhead := List.head?_dropWhile_not pySpace code
    rw [← htail] at hhead
    simp [hspace] at hhead

/-! ## One statement -/

theorem statements_append {s post : Text} (hs : ';' ∉ s) (hpost : ∀ c ∈ post, trailing c = true) :
    (statements (s ++ post)).length = if s.any (!asciiSpace ·) then 1 else 0 := by
  have hsplit : ∀ s : Text, ';' ∉ s → s.splitOnP (· = ';') = [s] := fun s hs =>
    List.splitOnP_eq_singleton fun c hc => by simpa using fun heq : c = ';' => hs (heq ▸ hc)
  induction post generalizing s with
  | nil =>
    rw [List.append_nil, statements, hsplit s hs, List.filter_singleton]
    cases s.any (!asciiSpace ·) <;> rfl
  | cons c post ih =>
    have hrest : ∀ d ∈ post, trailing d = true := fun d hd => hpost d (List.mem_cons_of_mem _ hd)
    rcases Bool.or_eq_true _ _ |>.mp (hpost c List.mem_cons_self) with hc | hc
    · have happ : s ++ c :: post = (s ++ [c]) ++ post := by simp
      have hsemi : c ≠ ';' := by
        rintro rfl
        exact absurd hc (by decide)
      rw [happ, ih (s := s ++ [c]) (by simp [hs, hsemi.symm]) hrest]
      simp [hc]
    · have hempty := ih (s := []) List.not_mem_nil hrest
      rw [List.nil_append, statements] at hempty
      rw [statements, List.splitOnP_append_cons (p := (· = ';')) s post hc, List.filter_append,
        List.length_append, hempty, hsplit s hs, List.filter_singleton]
      cases s.any (!asciiSpace ·) <;> rfl

theorem one_statement {code pre post : Text} (hframe : code = pre ++ analysis code ++ post)
    (hpre : ∀ c ∈ pre, asciiSpace c = true) (hpost : ∀ c ∈ post, trailing c = true)
    (hcode : analysis code ≠ []) (hsingle : ';' ∉ analysis code) :
    (statements code).length = 1 := by
  obtain ⟨c, rest, hbody⟩ := List.exists_cons_of_ne_nil hcode
  have hfull : asciiSpace c = false := Bool.eq_false_iff.mpr fun hspace => by
    have hnot := analysis_head hbody
    rw [asciiSpace_pySpace hspace] at hnot
    cases hnot
  have hsemi : ';' ∉ pre ++ analysis code := by
    rw [List.mem_append, not_or]
    exact ⟨fun hmem => absurd (hpre _ hmem) (by decide), hsingle⟩
  rw [hframe, statements_append hsemi hpost, if_pos]
  rw [hbody, List.any_append, List.any_cons, hfull]
  simp

/-! ## Letters -/

theorem digit_not_wordChar {c : Char} (h : c.isDigit = true) : wordChar c = false := by
  have hall : ∀ d ∈ "0123456789".toList, (!wordChar d) = true := List.all_eq_true.mp (by decide)
  simpa using hall c (mem_digits h)

theorem isAlpha_of_lower {w : Text} (h : lower w ∈ readOnlyStarts) : ∀ c ∈ w, c.isAlpha = true := by
  intro c hc
  rw [← Char.isAlpha_toLower_eq_isAlpha]
  have hletters : ∀ v ∈ readOnlyStarts, v.all Char.isAlpha = true := by decide
  exact List.all_eq_true.mp (hletters _ h) _ (List.mem_map_of_mem hc)

theorem wordChar_of_lower {t : SqlType} {w : Text} (h : lower w ∈ forbiddenWords (some t)) :
    w ≠ [] ∧ ∀ c ∈ w, wordChar c = true := by
  have hletters : ∀ v ∈ forbiddenWords (some t), v ≠ [] ∧ v.all Char.isAlpha = true := by
    cases t <;> decide
  obtain ⟨hne, hall⟩ := hletters _ h
  refine ⟨fun hnil => hne (by rw [hnil]; rfl), fun c hc => ?_⟩
  rw [wordChar, ← Char.isAlpha_toLower_eq_isAlpha,
    List.all_eq_true.mp hall _ (List.mem_map_of_mem hc), Bool.true_or]

theorem takeWhile_of_subclass {α : Type*} {p q : α → Bool} {xs : List α}
    (hsub : ∀ x, q x = true → p x = true) (hall : ∀ x ∈ xs.takeWhile p, q x = true) :
    xs.takeWhile p = xs.takeWhile q := by
  induction xs with
  | nil => rfl
  | cons x xs ih =>
    cases hp : p x with
    | false =>
      have hq : q x = false := Bool.eq_false_iff.mpr fun hq => by simp [hsub x hq] at hp
      rw [List.takeWhile_cons, List.takeWhile_cons, hp, hq]
      rfl
    | true =>
      rw [List.takeWhile_cons, hp, if_pos rfl] at hall
      rw [List.takeWhile_cons, List.takeWhile_cons, hp, if_pos rfl,
        hall x List.mem_cons_self, if_pos rfl, ih fun y hy => hall y (List.mem_cons_of_mem _ hy)]

/-! ## The leading keyword -/

/-- What stands in front of the first word. -/
def opening (c : Char) : Bool := asciiSpace c || c = '('

theorem dropWhile_congr {α : Type*} {p q : α → Bool} {xs : List α} (h : ∀ x ∈ xs, p x = q x) :
    xs.dropWhile p = xs.dropWhile q := by
  induction xs with
  | nil => rfl
  | cons x xs ih =>
    rw [List.dropWhile_cons, List.dropWhile_cons, h x List.mem_cons_self,
      ih fun y hy => h y (List.mem_cons_of_mem _ hy)]

/-- The blanks around the analysed part have no part in the first word. -/
theorem firstWord_frame {t : SqlType} {pre body post : Text}
    (hpre : ∀ c ∈ pre, asciiSpace c = true) (hpost : ∀ c ∈ post, trailing c = true)
    (hbody : body.dropWhile opening ≠ []) :
    firstWord (engine t) (pre ++ body ++ post) =
      (body.dropWhile opening).takeWhile (engine t).wordChar := by
  have hskip : (pre ++ body ++ post).dropWhile opening = body.dropWhile opening ++ post := by
    rw [List.append_assoc, List.dropWhile_append_of_pos fun c hc => by rw [opening, hpre c hc]; rfl,
      List.dropWhile_append, if_neg (by simpa using hbody)]
  have hnone : post.takeWhile (engine t).wordChar = [] := by
    cases post with
    | nil => rfl
    | cons c post =>
      rw [List.takeWhile_cons, engine_wordChar_trailing t (hpost c List.mem_cons_self)]
      rfl
  have hunfold : firstWord (engine t) (pre ++ body ++ post) =
      ((pre ++ body ++ post).dropWhile opening).takeWhile (engine t).wordChar := rfl
  rw [hunfold, hskip, List.takeWhile_append, hnone, List.append_nil]
  split
  · next hlen => rw [List.takeWhile_prefix _ |>.eq_of_length hlen]
  · rfl

theorem leadingKeyword_eq {body : Text}
    (hblank : ∀ c ∈ body, pySpace c = true → asciiSpace c = true) :
    leadingKeyword body = lower ((body.dropWhile opening).takeWhile Char.isAlpha) := by
  have hdrop : (body.dropWhile fun c => pySpace c || c = '(') = body.dropWhile opening := by
    apply dropWhile_congr
    intro c hc
    have hspace : pySpace c = asciiSpace c := Bool.eq_iff_iff.mpr ⟨hblank c hc, asciiSpace_pySpace⟩
    rw [opening, hspace]
  rw [leadingKeyword, hdrop]

theorem keyword_ends_iff {t : SqlType} {rest : Text}
    (hlead : lower (rest.takeWhile Char.isAlpha) ∈ readOnlyStarts) :
    lower (rest.takeWhile (engine t).wordChar) ∈ readOnlyStarts ↔
      ∀ c ∈ rest.takeWhile (engine t).wordChar, c.isAlpha = true := by
  constructor
  · exact isAlpha_of_lower
  · intro hall
    have hsub : ∀ c : Char, c.isAlpha = true → (engine t).wordChar c = true := fun c hc =>
      wordChar_engine (engine t) (by rw [wordChar, hc, Bool.true_or])
    rwa [takeWhile_of_subclass hsub hall]

/-! ## The words -/

theorem no_forbidden_word {t : SqlType} {code : Text}
    (hallowed : ∀ w ∈ runs wordChar code, lower w ∉ forbiddenWords (some t)) :
    ∀ w ∈ words (engine t) code, lower w ∉ forbiddenWords (some t) := by
  intro w hw hforbidden
  obtain ⟨run, hrun, rfl⟩ := List.mem_map.mp hw
  obtain ⟨hne, hletters⟩ := wordChar_of_lower hforbidden
  have hdigits : ∀ c ∈ run.takeWhile Char.isDigit, wordChar c = false := by
    intro c hc
    have hdigit := List.mem_takeWhile_imp hc
    exact digit_not_wordChar hdigit
  rw [← List.takeWhile_append_dropWhile (p := Char.isDigit) (l := run)] at hrun
  have hmem := mem_runs_of_suffix (fun c => wordChar_engine (engine t)) hrun hdigits hletters hne
  exact hallowed _ hmem hforbidden

theorem runs_frame {pre body post : Text} (hpre : ∀ c ∈ pre, asciiSpace c = true)
    (hpost : ∀ c ∈ post, trailing c = true) :
    runs wordChar (pre ++ body ++ post) = runs wordChar body := by
  have hout : ∀ c, trailing c = true → wordChar c = false := fun c hc =>
    Bool.eq_false_iff.mpr fun hword => by
      have hnot := engine_wordChar_trailing .trino hc
      rw [wordChar_engine _ hword] at hnot
      cases hnot
  rw [runs_append_right fun c hc => hout c (hpost c hc), runs_append_left fun c hc =>
    hout c (by rw [trailing, hpre c hc, Bool.true_or])]

/-! ## Soundness -/

theorem pair_isPrefixOf (a b c : Char) (cs : Text) :
    [a, b].isPrefixOf (c :: cs) = (decide (c = a) && decide (cs.head? = some b)) := by
  rw [Bool.eq_iff_iff, List.isPrefixOf_iff_prefix, List.cons_prefix_cons, Bool.and_eq_true,
    decide_eq_true_eq, decide_eq_true_eq, eq_comm (a := a)]
  cases cs with
  | nil => simp
  | cons d cs => simp [eq_comm (a := b)]

theorem closeAt_block (text : Text) :
    closeAt ['*', '/'] false text = (blockSplit text).map Prod.snd := by
  induction text with
  | nil => rfl
  | cons c cs ih =>
    unfold closeAt blockSplit
    rw [Bool.false_and, if_neg Bool.false_ne_true, pair_isPrefixOf, ih]
    split
    · cases cs <;> rfl
    · rw [Option.map_map]
      rfl

theorem lineRest_eq {e : Lexis} (he : e.continuedComments = false) (text : Text) :
    lineRest e text = text.dropWhile (!e.lineEnds.contains ·) := by
  induction text with
  | nil => rfl
  | cons c cs ih =>
    unfold lineRest
    rw [he, List.dropWhile_cons, ih]
    cases e.lineEnds.contains c <;> rfl

theorem literalEnd_trino (before : Text) {quote : Char} (hquote : quote = '\'' ∨ quote = '"')
    (cs : Text) : (engine .trino).literalEnd before quote quote cs = quotedEnd quote false cs := by
  have hprefix : (engine .trino).prefixed none before = false := by
    unfold Lexis.prefixed
    split <;> rfl
  have hescape : (engine .trino).escapePrefix = none := rfl
  have hraw : (engine .trino).rawPrefix = none := rfl
  unfold Lexis.literalEnd
  simp only [hescape, hraw, hprefix]
  rcases hquote with rfl | rfl <;> rfl

theorem skip_trino (before text : Text) :
    (skipNoncode (identifierQuotes .trino) before text).map Prod.fst =
      ((engine .trino).skip before text).map Prod.fst := by
  cases text with
  | nil => rfl
  | cons c cs =>
    have hline : (engine .trino).startsLine (c :: cs) =
        (decide (c = '-') && decide (cs.head? = some '-')) := by
      simp [Lexis.startsLine, engine, pair_isPrefixOf]
    have hblock : (engine .trino).startsBlock (c :: cs) =
        (decide (c = '/') && decide (cs.head? = some '*')) := by
      simp [Lexis.startsBlock, engine, pair_isPrefixOf]
    unfold skipNoncode Lexis.skip
    simp only [hline, hblock]
    split
    · next hdash =>
      obtain ⟨rest, rfl⟩ : ∃ rest, cs = '-' :: rest := by
        cases cs <;> simp_all
      rw [lineRest_eq rfl]
      simp [engine]
    · split
      · rw [show (engine .trino).nestedComments = false from rfl, closeAt_block]
        cases blockSplit cs.tail <;> rfl
      · by_cases hquote : c = '\'' ∨ c = '"'
        · have hguard : closer (identifierQuotes .trino) c = some c := by
            rcases hquote with rfl | rfl <;> rfl
          have hengine : (engine .trino).quotes.lookup c = some c := by
            rcases hquote with rfl | rfl <;> rfl
          simp only [hguard, hengine, literalEnd_trino before hquote]
          cases quotedEnd c false cs <;> rfl
        · obtain ⟨hsingle, hdouble⟩ := not_or.mp hquote
          have hguard : closer (identifierQuotes .trino) c = none := by
            simp [closer, identifierQuotes, hsingle, hdouble]
          have hengine : (engine .trino).quotes.lookup c = none := by
            simp [engine, List.lookup_cons, beq_eq_false_iff_ne.mpr hsingle,
              beq_eq_false_iff_ne.mpr hdouble]
          have hoff : (engine .trino).dollar = .off := rfl
          have hdollar : (engine .trino).dollarTag before cs = none := by
            unfold Lexis.dollarTag
            simp only [hoff]
            split <;> rfl
          simp only [hguard, hengine, hdollar]
          split <;> rfl

/-- Trino and Athena have no construct of their own: the guard reads every query as they do. -/
theorem sameReading_trino (sql : Text) : SameReading .trino sql :=
  agree_of_same skip_trino

theorem sameReading_athena (sql : Text) : SameReading .athena sql := sameReading_trino sql

end DataQ.Sql
