import DataQ.Foundations.Fallible

/-! # Readers of records

A reader takes its input one symbol at a time, and now and then a symbol ends a record. It reads no
further than the records it was asked for, so what it read of an input is what it reads of every
longer one, unless the last of the records was ended by the end of the input. -/

namespace DataQ.RecordReaders
open DataQ.Fallible
set_option autoImplicit false

structure RecordReader (α ρ ε : Type) where
  State : Type
  start : State
  step : State → α → Except ε (State × Option ρ)
  /-- at the end of the input -/
  finish : State → Except ε (Option ρ)

namespace RecordReader

variable {α ρ ε : Type} (r : RecordReader α ρ ε)

/-- The end of the input ends a record as this separator does, or is refused. -/
def EndsAsAt (separator : α) : Prop :=
  ∀ s last, r.finish s = .ok last → ∃ s', r.step s separator = .ok (s', last)

/-- The first records, at most this many. -/
def readFrom : r.State → List α → ℕ → Except ε (List ρ)
  | _, _, 0 => .ok []
  | s, [], _ + 1 => (r.finish s).map Option.toList
  | s, x :: xs, n + 1 =>
    match r.step s x with
    | .error e => .error e
    | .ok (s', none) => readFrom s' xs (n + 1)
    | .ok (s', some record) => (readFrom s' xs n).map (record :: ·)

/-- All of the records. -/
def readAll : r.State → List α → Except ε (List ρ)
  | s, [] => (r.finish s).map Option.toList
  | s, x :: xs =>
    match r.step s x with
    | .error e => .error e
    | .ok (s', none) => readAll s' xs
    | .ok (s', some record) => (readAll s' xs).map (record :: ·)

/-- The records that are ended within a piece of the input, and the state behind it. -/
def feed : r.State → List α → Except ε (r.State × List ρ)
  | s, [] => .ok (s, [])
  | s, x :: xs =>
    match r.step s x with
    | .error e => .error e
    | .ok (s', record) => (feed s' xs).map fun (last, records) => (last, record.toList ++ records)

/-- The last of the records asked for, where it is the end of the input that ends it, with the state
that the end is reached in. -/
def cutRecord : r.State → List α → ℕ → Option (r.State × ρ)
  | _, _, 0 => none
  | s, [], n + 1 =>
    match n, r.finish s with
    | 0, .ok (some record) => some (s, record)
    | _, _ => none
  | s, x :: xs, n + 1 =>
    match r.step s x with
    | .error _ => none
    | .ok (s', none) => cutRecord s' xs (n + 1)
    | .ok (s', some _) => cutRecord s' xs n

variable {r}

theorem readAll_of_error {s : r.State} {x : α} {e : ε} (h : r.step s x = .error e) (xs : List α) :
    r.readAll s (x :: xs) = .error e := by
  rw [readAll, h]

theorem readAll_of_none {s s' : r.State} {x : α} (h : r.step s x = .ok (s', none)) (xs : List α) :
    r.readAll s (x :: xs) = r.readAll s' xs := by
  rw [readAll, h]

theorem readAll_of_some {s s' : r.State} {x : α} {record : ρ} (h : r.step s x = .ok (s', some record))
    (xs : List α) : r.readAll s (x :: xs) = (r.readAll s' xs).map (record :: ·) := by
  rw [readAll, h]

/-- A reader within another reads the same. -/
theorem readAll_embedded {r' : RecordReader α ρ ε} {f : r.State → r'.State}
    (hstep : ∀ s x, r'.step (f s) x = (r.step s x).map fun (s, record) => (f s, record))
    (hfinish : ∀ s, r'.finish (f s) = r.finish s) (s : r.State) (xs : List α) :
    r'.readAll (f s) xs = r.readAll s xs := by
  induction xs generalizing s with
  | nil => rw [readAll, readAll, hfinish]
  | cons x xs ih =>
    have hnext := hstep s x
    cases h : r.step s x with
    | error e =>
      rw [h] at hnext
      rw [readAll_of_error h, readAll_of_error hnext]
    | ok next =>
      obtain ⟨s', record⟩ := next
      rw [h] at hnext
      cases record with
      | none => rw [readAll_of_none h, readAll_of_none hnext, ih]
      | some record => rw [readAll_of_some h, readAll_of_some hnext, ih]

/-- An input is read piece by piece. -/
theorem readAll_append {s s' : r.State} {xs : List α} {records : List ρ}
    (h : r.feed s xs = .ok (s', records)) (ys : List α) :
    r.readAll s (xs ++ ys) = (r.readAll s' ys).map (records ++ ·) := by
  induction xs generalizing s records with
  | nil =>
    obtain ⟨rfl, rfl⟩ := Prod.mk.inj (Except.ok.inj h)
    cases hread : r.readAll s ys <;> simp [Except.map, hread]
  | cons x xs ih =>
    rw [feed] at h
    rw [List.cons_append, readAll]
    cases hstep : r.step s x with
    | error e => simp [hstep] at h
    | ok next =>
      obtain ⟨after, ended⟩ := next
      simp only [hstep] at h ⊢
      obtain ⟨⟨last, rest⟩, hfeed, hmk⟩ := map_eq_ok.mp h
      obtain ⟨rfl, rfl⟩ := Prod.mk.inj hmk
      have hrec := ih hfeed
      dsimp only at hrec ⊢
      cases ended with
      | none =>
        simp only [hrec]
        rfl
      | some record =>
        simp only [hrec]
        cases r.readAll last ys <;> rfl

theorem readAll_append_error {s : r.State} {xs : List α} {e : ε} (h : r.feed s xs = .error e)
    (ys : List α) : r.readAll s (xs ++ ys) = .error e := by
  induction xs generalizing s with
  | nil => exact nomatch h
  | cons x xs ih =>
    rw [feed] at h
    rw [List.cons_append, readAll]
    cases hstep : r.step s x with
    | error e' =>
      simp only [hstep] at h ⊢
      rw [Except.error.inj h]
    | ok next =>
      obtain ⟨after, ended⟩ := next
      simp only [hstep] at h ⊢
      have hrest := ih (map_eq_error.mp h)
      cases ended with
      | none => exact hrest
      | some record =>
        simp only [hrest]
        rfl

/-- A piece of so many symbols ends at most so many records. -/
theorem length_feed {s s' : r.State} {xs : List α} {records : List ρ}
    (h : r.feed s xs = .ok (s', records)) : records.length ≤ xs.length := by
  induction xs generalizing s records with
  | nil =>
    obtain ⟨rfl, rfl⟩ := Prod.mk.inj (Except.ok.inj h)
    exact Nat.le_refl 0
  | cons x xs ih =>
    rw [feed] at h
    cases hstep : r.step s x with
    | error e => simp [hstep] at h
    | ok next =>
      obtain ⟨after, ended⟩ := next
      simp only [hstep] at h
      obtain ⟨⟨last, rest⟩, hfeed, hmk⟩ := map_eq_ok.mp h
      obtain ⟨rfl, rfl⟩ := Prod.mk.inj hmk
      have hle := ih hfeed
      have hone : ended.toList.length ≤ 1 := by cases ended <;> simp
      dsimp only at hle ⊢
      rw [List.length_append, List.length_cons]
      omega

theorem readFrom_length_le {s : r.State} {xs : List α} {n : ℕ} {rs : List ρ}
    (h : r.readFrom s xs n = .ok rs) : rs.length ≤ n := by
  induction xs generalizing s n rs with
  | nil =>
    cases n with
    | zero =>
      rw [readFrom] at h
      cases h
      exact Nat.zero_le _
    | succ n =>
      rw [readFrom, map_eq_ok] at h
      obtain ⟨last, -, rfl⟩ := h
      cases last <;> simp
  | cons x xs ih =>
    cases n with
    | zero =>
      rw [readFrom] at h
      cases h
      exact Nat.zero_le _
    | succ n =>
      rw [readFrom] at h
      split at h
      · cases h
      · exact ih h
      · obtain ⟨rest, hrest, rfl⟩ := map_eq_ok.mp h
        have hle := ih hrest
        rw [List.length_cons]
        omega

/-- Asking for fewer records gives the first of all. -/
theorem readFrom_of_readAll {s : r.State} {xs : List α} {all : List ρ}
    (h : r.readAll s xs = .ok all) (n : ℕ) : r.readFrom s xs n = .ok (all.take n) := by
  induction xs generalizing s n all with
  | nil =>
    cases n with
    | zero => rw [readFrom, List.take_zero]
    | succ n =>
      rw [readAll, map_eq_ok] at h
      obtain ⟨last, hlast, rfl⟩ := h
      rw [readFrom, hlast]
      cases last <;> simp [Except.map]
  | cons x xs ih =>
    cases n with
    | zero => rw [readFrom, List.take_zero]
    | succ n =>
      rw [readAll] at h
      rw [readFrom]
      split at h
      · cases h
      · exact ih h (n + 1)
      · obtain ⟨rest, hrest, rfl⟩ := map_eq_ok.mp h
        rw [ih hrest n, List.take_succ_cons]
        rfl

/-- Records that are all ended within an input are the first of every longer input. -/
theorem readFrom_append {s : r.State} {xs : List α} {n : ℕ} {rs : List ρ}
    (h : r.readFrom s xs n = .ok rs) (hall : n ≤ rs.length) (hcut : r.cutRecord s xs n = none)
    (ys : List α) : r.readFrom s (xs ++ ys) n = .ok rs := by
  induction xs generalizing s n rs with
  | nil =>
    cases n with
    | zero =>
      rw [readFrom] at h
      cases h
      rw [readFrom]
    | succ n =>
      rw [readFrom, map_eq_ok] at h
      obtain ⟨last, hlast, rfl⟩ := h
      -- one record at most is ended by the end, and `cutRecord` would name it
      cases last with
      | none => simp at hall
      | some record =>
        have hn : n = 0 := by simpa using hall
        subst hn
        simp [cutRecord, hlast] at hcut
  | cons x xs ih =>
    cases n with
    | zero =>
      rw [readFrom] at h
      cases h
      rw [readFrom]
    | succ n =>
      rw [List.cons_append, readFrom]
      rw [readFrom] at h
      rw [cutRecord] at hcut
      cases hstep : r.step s x with
      | error e => simp [hstep] at h
      | ok next =>
        obtain ⟨s', ended⟩ := next
        simp only [hstep] at h hcut
        cases ended with
        | none => exact ih h hall hcut
        | some record =>
          obtain ⟨rest, hrest, rfl⟩ := map_eq_ok.mp h
          have hmore : n ≤ rest.length := by simpa using hall
          simp only [ih hrest hmore hcut, Except.map]

/-- Where the end of the input ends the last of the records, a longer one is read on from there. -/
theorem readFrom_append_of_cut {s s' : r.State} {xs : List α} {n : ℕ} {record : ρ}
    (h : r.cutRecord s xs n = some (s', record)) :
    r.finish s' = .ok (some record) ∧ ∃ rs, r.readFrom s xs n = .ok (rs ++ [record]) ∧
      n = rs.length + 1 ∧
      ∀ ys, r.readFrom s (xs ++ ys) n = (r.readFrom s' ys 1).map (rs ++ ·) := by
  induction xs generalizing s n with
  | nil =>
    cases n with
    | zero => simp [cutRecord] at h
    | succ n =>
      simp only [cutRecord] at h
      split at h
      · next hlast =>
        cases h
        refine ⟨hlast, [], by simp [readFrom, hlast, Except.map], rfl, fun ys => ?_⟩
        rw [List.nil_append]
        cases r.readFrom s' ys 1 <;> rfl
      · cases h
  | cons x xs ih =>
    cases n with
    | zero => simp [cutRecord] at h
    | succ n =>
      rw [cutRecord] at h
      cases hstep : r.step s x with
      | error e => simp [hstep] at h
      | ok next =>
        obtain ⟨after, ended⟩ := next
        simp only [hstep] at h
        cases ended with
        | none =>
          obtain ⟨hfinish, rs, hread, hcount, hmore⟩ := ih h
          refine ⟨hfinish, rs, by simpa [readFrom, hstep] using hread, hcount, fun ys => ?_⟩
          simpa [readFrom, hstep] using hmore ys
        | some first =>
          obtain ⟨hfinish, rs, hread, hcount, hmore⟩ := ih h
          refine ⟨hfinish, first :: rs, ?_, by simp [hcount], fun ys => ?_⟩
          · simp [readFrom, hstep, hread, Except.map]
          · simp only [List.cons_append, readFrom, hstep, hmore ys]
            cases r.readFrom s' ys 1 <;> rfl

/-- An input that stops short of a separator is read as the first of what goes on after it. -/
theorem readFrom_append_separator {separator : α} (hr : r.EndsAsAt separator) {s : r.State}
    {xs : List α} {n : ℕ} {rs : List ρ} (h : r.readFrom s xs n = .ok rs) (hall : n ≤ rs.length)
    (ys : List α) : r.readFrom s (xs ++ separator :: ys) n = .ok rs := by
  cases hcut : r.cutRecord s xs n with
  | none => exact readFrom_append h hall hcut (separator :: ys)
  | some cut =>
    obtain ⟨s', record⟩ := cut
    obtain ⟨hfinish, first, hread, -, hmore⟩ := readFrom_append_of_cut hcut
    obtain ⟨after, hstep⟩ := hr s' (some record) hfinish
    have hnext : r.readFrom s' (separator :: ys) 1 = .ok [record] := by
      simp [readFrom, hstep, Except.map]
    rw [hmore, hnext, ← h, hread]
    rfl

/-- A record that the end of an input has cut is read of the longer input as it was cut, or the
records of the two differ. -/
theorem readFrom_append_eq_iff {s s' : r.State} {xs : List α} {n : ℕ} {record : ρ} {rs : List ρ}
    (hcut : r.cutRecord s xs n = some (s', record)) (h : r.readFrom s xs n = .ok rs)
    (ys : List α) :
    r.readFrom s (xs ++ ys) n = .ok rs ↔ r.readFrom s' ys 1 = .ok [record] := by
  obtain ⟨-, first, hread, -, hmore⟩ := readFrom_append_of_cut hcut
  have hrs : first ++ [record] = rs := Except.ok.inj (hread.symm.trans h)
  subst hrs
  rw [hmore, map_eq_ok]
  constructor
  · rintro ⟨next, hnext, happend⟩
    rw [hnext, List.append_cancel_left happend]
  · intro hnext
    exact ⟨[record], hnext, rfl⟩

end RecordReader

end DataQ.RecordReaders
