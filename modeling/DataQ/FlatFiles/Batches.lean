import DataQ.Foundations.Text
import Mathlib.Data.Char
import Mathlib.Data.List.Lex
import Mathlib.Data.List.MinMax
import Mathlib.Data.Prod.Lex

/-! # Batch resolution

`datasources/flatfile.py`: one pass over a listing picks the file of a batch. -/

namespace DataQ.FlatFiles
set_option autoImplicit false

/-- A listed object; its time is counted from the earliest there is. -/
structure FileRef where
  path : Text
  lastModified : Option ℕ
  deriving DecidableEq

/-- `_MIN_DT`. -/
def minTime : ℕ := 0

abbrev Rank := ℕ ×ₗ Text

/-- `_rank`. -/
def FileRef.rank (file : FileRef) : Rank := toLex (file.lastModified.getD minTime, file.path)

inductive BatchError
  | invalidPattern
  | noFilesMatched
  | batchKeyRequired
  | noFileForBatch (batch : Text)
  | unknownStrategy (strategy : Text)
  deriving DecidableEq

/-- A compiled pattern: whether it is found in a path, and what its first group then takes. -/
abbrev Pattern := Text → Option (Option Text)

structure Running where
  sawMatch : Bool
  /-- the batch key and the path -/
  bestKeyed : Option (Text × Text)
  bestRecent : Option Rank
  bestOfBatch : Option Rank
  deriving DecidableEq

/-- `if best is None or new > best: best = new`. -/
def raise {α β : Type*} [LinearOrder β] (measure : α → β) (best : Option α) (new : α) :
    Option α :=
  match best with
  | none => some new
  | some old => if measure old < measure new then some new else some old

def visit (search : Pattern) (batch : Option Text) (running : Running) (file : FileRef) : Running :=
  match search file.path with
  | none => running
  | some key => {
      sawMatch := true
      bestKeyed :=
        match key with
        | some key => raise Prod.fst running.bestKeyed (key, file.path)
        | none => running.bestKeyed
      bestRecent := raise id running.bestRecent file.rank
      bestOfBatch :=
        if key ≠ none ∧ key = batch then raise id running.bestOfBatch file.rank
        else running.bestOfBatch }

def specific : Text := "specific".toList

def latest : Text := "latest".toList

/-- `resolve_batch`; the pattern is `none` where it does not compile. -/
def resolveBatch (compiled : Option Pattern) (files : List FileRef) (strategy : Text)
    (batch : Option Text) : Except BatchError Text :=
  match compiled with
  | none => .error .invalidPattern
  | some search =>
    let running := files.foldl (visit search batch) ⟨false, none, none, none⟩
    if !running.sawMatch then .error .noFilesMatched
    else if strategy = specific then
      match batch with
      | none => .error .batchKeyRequired
      | some batch =>
        match running.bestOfBatch with
        | none => .error (.noFileForBatch batch)
        | some rank => .ok (ofLex rank).2
    else if strategy ≠ latest then .error (.unknownStrategy strategy)
    else
      match running.bestKeyed with
      | some (_, path) => .ok path
      | none => .ok ((running.bestRecent.map fun rank => (ofLex rank).2).getD [])

/-! ## The running maxima -/

section Maxima
variable {α β : Type*} [LinearOrder β] {measure : α → β}

/-- The first of the items that measure most. -/
def greatest {α β : Type*} [LinearOrder β] (measure : α → β) (items : List α) : Option α :=
  items.argmax measure

theorem foldl_raise (items : List α) :
    items.foldl (raise measure) none = greatest measure items := by
  rw [greatest, List.argmax]
  congr 1
  funext best new
  cases best <;> rfl

theorem raise_greatest (items : List α) (new : α) :
    raise measure (greatest measure items) new = greatest measure (items ++ [new]) := by
  rw [← foldl_raise, ← foldl_raise, List.foldl_append]
  rfl

theorem greatest_eq_none {items : List α} : greatest measure items = none ↔ items = [] :=
  List.argmax_eq_none

theorem mem_of_greatest {items : List α} {a : α} (h : greatest measure items = some a) :
    a ∈ items := List.argmax_mem h

theorem le_of_greatest {items : List α} {a b : α} (h : greatest measure items = some a)
    (hb : b ∈ items) : measure b ≤ measure a := List.le_of_mem_argmax hb h

theorem greatest_eq_find? {items : List α} {top : β} (htop : ∀ a ∈ items, measure a ≤ top)
    (hmem : ∃ a ∈ items, measure a = top) :
    greatest measure items = items.find? fun a => measure a = top := by
  unfold greatest
  induction items with
  | nil =>
    obtain ⟨a, ha, -⟩ := hmem
    cases ha
  | cons a items ih =>
    have hle := htop a List.mem_cons_self
    rw [List.argmax_cons]
    by_cases heq : measure a = top
    · rw [List.find?_cons_of_pos (by simpa using heq)]
      cases hrest : items.argmax measure with
      | none => rfl
      | some b =>
        have hb := htop b (List.mem_cons_of_mem a (List.argmax_mem hrest))
        exact if_neg (by rw [heq]; exact not_lt_of_ge hb)
    · have hlater : ∃ b ∈ items, measure b = top := by
        obtain ⟨b, hb, hbtop⟩ := hmem
        obtain rfl | hb := List.mem_cons.mp hb
        · exact absurd hbtop heq
        · exact ⟨b, hb, hbtop⟩
      rw [List.find?_cons_of_neg (by simpa using heq),
        ih (fun b hb => htop b (List.mem_cons_of_mem a hb)) hlater]
      cases hfind : items.find? fun b => measure b = top with
      | none =>
        obtain ⟨b, hb, hbtop⟩ := hlater
        exact absurd hbtop (by simpa using List.find?_eq_none.mp hfind b hb)
      | some b =>
        have hb : measure b = top := by simpa using List.find?_some hfind
        exact if_pos (by rw [hb]; exact lt_of_le_of_ne hle heq)

/-- Where the measure tells the items apart, their order does not matter. -/
theorem greatest_perm {items items' : List α} (hperm : items.Perm items')
    (hinj : ∀ a ∈ items, ∀ b ∈ items, measure a = measure b → a = b) :
    greatest measure items = greatest measure items' := by
  unfold greatest
  cases h : items.argmax measure with
  | none =>
    rw [List.argmax_eq_none] at h
    rw [h, List.nil_perm] at hperm
    rw [hperm, List.argmax_nil]
  | some a =>
    cases h' : items'.argmax measure with
    | none =>
      rw [List.argmax_eq_none] at h'
      rw [h', List.perm_nil] at hperm
      rw [hperm, List.argmax_nil] at h
      cases h
    | some b =>
      have ha := List.argmax_mem h
      have hb := hperm.mem_iff.mpr (List.argmax_mem h')
      have hba := List.le_of_mem_argmax hb h
      have hab := List.le_of_mem_argmax (hperm.mem_iff.mp ha) h'
      rw [hinj a ha b hb (le_antisymm hab hba)]

end Maxima

/-! ## What the pass has found -/

section Pass
variable (search : Pattern)

/-- The batch key of a file, where it matches and its first group takes part. -/
def keyOf (file : FileRef) : Option Text := (search file.path).join

def keyed (files : List FileRef) : List (Text × Text) :=
  files.filterMap fun file => (keyOf search file).map fun key => (key, file.path)

def matched (files : List FileRef) : List FileRef :=
  files.filter fun file => (search file.path).isSome

def ofBatch (batch : Option Text) (files : List FileRef) : List FileRef :=
  files.filter fun file => keyOf search file ≠ none ∧ keyOf search file = batch

theorem foldl_visit (batch : Option Text) (files : List FileRef) :
    files.foldl (visit search batch) ⟨false, none, none, none⟩ =
      ⟨!(matched search files).isEmpty, greatest Prod.fst (keyed search files),
        greatest id ((matched search files).map FileRef.rank),
        greatest id ((ofBatch search batch files).map FileRef.rank)⟩ := by
  induction files using List.reverseRecOn with
  | nil => rfl
  | append_singleton files file ih =>
    rw [List.foldl_append, ih, List.foldl_cons, List.foldl_nil, visit]
    simp only [matched, keyed, ofBatch, keyOf, List.filter_append, List.filterMap_append,
      List.map_append]
    cases hsearch : search file.path with
    | none => simp [hsearch]
    | some key =>
      cases key with
      | none => simp [hsearch, raise_greatest]
      | some key =>
        by_cases hbatch : some key = batch
        · subst hbatch
          simp [hsearch, raise_greatest]
        · simp [hsearch, hbatch, raise_greatest]

/-- A file of the greatest key. -/
def Newest (files : List FileRef) (key : Text) : Prop :=
  (∃ file ∈ files, keyOf search file = some key) ∧
    ∀ file ∈ files, ∀ other, keyOf search file = some other → other ≤ key

/-- No two files have the greatest key. -/
def OneNewest (files : List FileRef) : Prop :=
  ∀ key, Newest search files key → ∀ a ∈ files, ∀ b ∈ files,
    keyOf search a = some key → keyOf search b = some key → a = b

variable {search}

theorem mem_keyed {files : List FileRef} {entry : Text × Text} :
    entry ∈ keyed search files ↔
      ∃ file ∈ files, keyOf search file = some entry.1 ∧ file.path = entry.2 := by
  obtain ⟨key, path⟩ := entry
  simp [keyed]

/-- The path of the first file that has the greatest key. -/
theorem greatest_keyed {files : List FileRef} {key : Text} (h : Newest search files key) :
    greatest Prod.fst (keyed search files) =
      (files.find? fun file => keyOf search file = some key).map fun file => (key, file.path) := by
  have htop : ∀ entry ∈ keyed search files, entry.1 ≤ key := by
    intro entry hentry
    obtain ⟨file, hfile, hkey, -⟩ := mem_keyed.mp hentry
    exact h.2 file hfile entry.1 hkey
  have hmem : ∃ entry ∈ keyed search files, entry.1 = key := by
    obtain ⟨file, hfile, hkey⟩ := h.1
    exact ⟨(key, file.path), mem_keyed.mpr ⟨file, hfile, hkey, rfl⟩, rfl⟩
  rw [greatest_eq_find? htop hmem, keyed]
  clear h htop hmem
  induction files with
  | nil => rfl
  | cons file files ih =>
    rw [List.filterMap_cons, List.find?_cons]
    cases hkey : keyOf search file with
    | none => simpa using ih
    | some other =>
      by_cases heq : other = key
      · subst heq
        simp
      · simpa [List.find?_cons, heq] using ih

theorem exists_newest {files : List FileRef} (h : keyed search files ≠ []) :
    ∃ key, Newest search files key := by
  cases hbest : greatest Prod.fst (keyed search files) with
  | none => exact absurd (greatest_eq_none.mp hbest) h
  | some entry =>
    obtain ⟨file, hfile, hkey, -⟩ := mem_keyed.mp (mem_of_greatest hbest)
    refine ⟨entry.1, ⟨file, hfile, hkey⟩, fun file' hfile' other hother => ?_⟩
    have hentry : (other, file'.path) ∈ keyed search files :=
      mem_keyed.mpr ⟨file', hfile', hother, rfl⟩
    exact le_of_greatest hbest hentry

theorem Newest.perm {files files' : List FileRef} {key : Text} (hperm : files.Perm files')
    (h : Newest search files key) : Newest search files' key := by
  obtain ⟨⟨file, hfile, hkey⟩, htop⟩ := h
  exact ⟨⟨file, hperm.mem_iff.mp hfile, hkey⟩, fun file' hfile' =>
    htop file' (hperm.mem_iff.mpr hfile')⟩

theorem Newest.find? {files : List FileRef} {key : Text} (h : Newest search files key) :
    ∃ file ∈ files, keyOf search file = some key ∧
      files.find? (fun file => keyOf search file = some key) = some file := by
  cases hfind : files.find? fun file => keyOf search file = some key with
  | none =>
    obtain ⟨file, hfile, hkey⟩ := h.1
    exact absurd hkey (by simpa using List.find?_eq_none.mp hfind file hfile)
  | some file =>
    exact ⟨file, List.mem_of_find?_eq_some hfind, by simpa using List.find?_some hfind, rfl⟩

theorem greatest_keyed_perm {files files' : List FileRef} (hperm : files.Perm files')
    (hone : OneNewest search files) :
    greatest Prod.fst (keyed search files) = greatest Prod.fst (keyed search files') := by
  by_cases hkeyed : keyed search files = []
  · have hkeyed' : keyed search files' = [] := by
      have hlists := hperm.filterMap fun file => (keyOf search file).map fun key => (key, file.path)
      exact List.nil_perm.mp (hkeyed ▸ hlists)
    rw [hkeyed, hkeyed']
  · obtain ⟨key, hnewest⟩ := exists_newest hkeyed
    obtain ⟨a, ha, hakey, hfind⟩ := hnewest.find?
    obtain ⟨b, hb, hbkey, hfind'⟩ := (hnewest.perm hperm).find?
    have hab : a = b := hone key hnewest a ha b (hperm.mem_iff.mpr hb) hakey hbkey
    rw [greatest_keyed hnewest, greatest_keyed (hnewest.perm hperm), hfind, hfind', hab]

theorem greatest_id_perm {ranks ranks' : List Rank} (hperm : ranks.Perm ranks') :
    greatest id ranks = greatest id ranks' := greatest_perm hperm fun _ _ _ _ h => h

theorem isEmpty_matched {files : List FileRef} {key : Text} {file : FileRef} (hfile : file ∈ files)
    (hkey : keyOf search file = some key) : (matched search files).isEmpty = false := by
  rw [List.isEmpty_eq_false_iff]
  apply List.ne_nil_of_mem
  refine List.mem_filter.mpr ⟨hfile, ?_⟩
  rw [Option.join_eq_some_iff.mp hkey]
  rfl

/-- Latest: the first listed of the files that have the greatest key. -/
theorem resolve_latest {files : List FileRef} {key : Text} {batch : Option Text}
    (h : Newest search files key) :
    ∃ file, files.find? (fun file => keyOf search file = some key) = some file ∧
      resolveBatch (some search) files latest batch = .ok file.path := by
  obtain ⟨file, hfile, hkey, hfind⟩ := h.find?
  refine ⟨file, hfind, ?_⟩
  have hstrategy : latest ≠ specific := by decide
  simp only [resolveBatch, foldl_visit, isEmpty_matched hfile hkey, greatest_keyed h, hfind,
    if_neg hstrategy, Bool.not_false, Bool.not_true, Bool.false_eq_true, if_false, ne_eq,
    not_true_eq_false, Option.map_some]

/-- Specific: of the files that have the key, the one that was modified last. -/
theorem resolve_specific {files : List FileRef} {key : Text} {file : FileRef}
    (hfile : file ∈ files) (hkey : keyOf search file = some key)
    (hone : ∀ a ∈ files, keyOf search a = some key → a = file) :
    resolveBatch (some search) files specific (some key) = .ok file.path := by
  have hmem : file.rank ∈ (ofBatch search (some key) files).map FileRef.rank :=
    List.mem_map_of_mem (List.mem_filter.mpr ⟨hfile, by simp [hkey]⟩)
  have hbest : greatest id ((ofBatch search (some key) files).map FileRef.rank) =
      some file.rank := by
    cases hgreatest : greatest id ((ofBatch search (some key) files).map FileRef.rank) with
    | none =>
      rw [greatest_eq_none.mp hgreatest] at hmem
      cases hmem
    | some rank =>
      obtain ⟨a, ha, rfl⟩ := List.mem_map.mp (mem_of_greatest hgreatest)
      obtain ⟨hin, hbatch⟩ := List.mem_filter.mp ha
      rw [hone a hin (of_decide_eq_true hbatch).2]
  simp only [resolveBatch, foldl_visit, isEmpty_matched hfile hkey, hbest, Bool.not_false,
    Bool.not_true, Bool.false_eq_true, if_false, if_true]
  rfl

end Pass

/-- A listing's order matters to the latest batch only, and there only where two files have the
greatest key: the first of them is taken. Where one has it, it is the file that is taken for that
key. -/
theorem resolve_batch_order {files files' : List FileRef} (hperm : files.Perm files')
    (compiled : Option Pattern) (strategy : Text) (batch : Option Text) :
    ((strategy = latest → ∀ search, compiled = some search → OneNewest search files) →
      resolveBatch compiled files strategy batch = resolveBatch compiled files' strategy batch) ∧
    ∀ search key, Newest search files key →
      (∃ file, files.find? (fun file => keyOf search file = some key) = some file ∧
        resolveBatch (some search) files latest batch = .ok file.path) ∧
      (OneNewest search files → resolveBatch (some search) files latest batch =
        resolveBatch (some search) files specific (some key)) := by
  refine ⟨fun hone => ?_, fun search key hnewest => ⟨resolve_latest hnewest, fun hone => ?_⟩⟩
  · cases compiled with
    | none => rfl
    | some search =>
      have hmatched : (matched search files).Perm (matched search files') := hperm.filter _
      have hrecent := greatest_id_perm (hmatched.map FileRef.rank)
      have hbatch := greatest_id_perm
        ((hperm.filter fun file => keyOf search file ≠ none ∧ keyOf search file = batch).map
          FileRef.rank)
      have hempty : (matched search files).isEmpty = (matched search files').isEmpty := by
        rw [Bool.eq_iff_iff, List.isEmpty_iff_length_eq_zero, List.isEmpty_iff_length_eq_zero,
          hmatched.length_eq]
      unfold resolveBatch
      simp only [foldl_visit, ofBatch, hempty, hrecent, hbatch]
      split
      · rfl
      · split
        · rfl
        · split
          · rfl
          · next hlatest =>
            rw [greatest_keyed_perm hperm (hone (not_not.mp hlatest) search rfl)]
  · obtain ⟨file, hfile, hkey, hfind⟩ := hnewest.find?
    obtain ⟨file', hfind', hlatest⟩ := @resolve_latest _ _ _ batch hnewest
    obtain rfl := Option.some.inj (hfind.symm.trans hfind')
    rw [hlatest, resolve_specific hfile hkey fun a ha hakey => hone key hnewest a ha file hfile
      hakey hkey]

/-- The pattern `(\d+)`. -/
def digits : Pattern := fun path =>
  match (path.dropWhile (!Char.isDigit ·)).takeWhile Char.isDigit with
  | [] => none
  | key => some (some key)

def load (path : String) (lastModified : ℕ) : FileRef := ⟨path.toList, some lastModified⟩

theorem resolve_batch_order_digits :
    resolveBatch (some digits) [load "a/3.csv" 1, load "b/7.csv" 4, load "b/3.csv" 9] latest none =
      resolveBatch (some digits) [load "b/3.csv" 9, load "b/7.csv" 4, load "a/3.csv" 1] latest
        none ∧
    resolveBatch (some digits) [load "a/3.csv" 1, load "b/7.csv" 4, load "b/3.csv" 9] latest none =
      resolveBatch (some digits) [load "a/3.csv" 1, load "b/7.csv" 4, load "b/3.csv" 9] specific
        (some "7".toList) := by
  have hkeys : ∀ file ∈ [load "a/3.csv" 1, load "b/7.csv" 4, load "b/3.csv" 9],
      ∀ key, keyOf digits file = some key → key ≤ "7".toList ∧
        (key = "7".toList → file = load "b/7.csv" 4) := by
    intro file hfile key hkey
    simp only [List.mem_cons, List.not_mem_nil, or_false] at hfile
    obtain rfl | rfl | rfl := hfile
    · obtain rfl : "3".toList = key := Option.some.inj hkey
      exact ⟨by decide, by decide⟩
    · obtain rfl : "7".toList = key := Option.some.inj hkey
      exact ⟨by decide, fun _ => rfl⟩
    · obtain rfl : "3".toList = key := Option.some.inj hkey
      exact ⟨by decide, by decide⟩
  have hnewest : Newest digits [load "a/3.csv" 1, load "b/7.csv" 4, load "b/3.csv" 9] "7".toList :=
    ⟨⟨load "b/7.csv" 4, by decide, rfl⟩, fun file hfile key hkey => (hkeys file hfile key hkey).1⟩
  have hone : OneNewest digits [load "a/3.csv" 1, load "b/7.csv" 4, load "b/3.csv" 9] := by
    intro key hkey a ha b hb hakey hbkey
    obtain rfl : key = "7".toList := le_antisymm (hkeys a ha key hakey).1
      (hkey.2 (load "b/7.csv" 4) (by decide) "7".toList rfl)
    rw [(hkeys a ha _ hakey).2 rfl, (hkeys b hb _ hbkey).2 rfl]
  have horder := resolve_batch_order
    (List.reverse_perm [load "b/3.csv" 9, load "b/7.csv" 4, load "a/3.csv" 1]) (some digits) latest
    none
  exact ⟨horder.1 fun _ search hsearch => Option.some.inj hsearch ▸ hone,
    (horder.2 digits "7".toList hnewest).2 hone⟩

/-- Two files of the same key: the one that is listed first is the latest, and not always the one
that was modified last. -/
theorem listing_order_decides_latest :
    ¬∀ files files' : List FileRef, (files.map FileRef.path).Nodup → files.Perm files' →
      ∀ compiled strategy batch,
        resolveBatch compiled files strategy batch =
          resolveBatch compiled files' strategy batch := by
  intro h
  have hfirst : resolveBatch (some digits) [load "a/7.csv" 1, load "b/7.csv" 9] latest none =
      .ok "a/7.csv".toList := rfl
  have hsecond : resolveBatch (some digits) [load "b/7.csv" 9, load "a/7.csv" 1] latest none =
      .ok "b/7.csv".toList := rfl
  have hsame := h [load "a/7.csv" 1, load "b/7.csv" 9] [load "b/7.csv" 9, load "a/7.csv" 1]
    (by decide) (List.Perm.swap _ _ _) (some digits) latest none
  rw [hfirst, hsecond] at hsame
  revert hsame
  decide

end DataQ.FlatFiles
