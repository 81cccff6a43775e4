import DataQ.Foundations.Slots
import Mathlib.Data.List.Sort

/-! # One-pass samples

`reservoir_sample` of `datasources/sampling.py`, which walks a stream of record batches and writes
the rows that it takes in bulk; and Algorithm L over single rows, which it refines. -/

namespace DataQ.Sampling
open DataQ.Slots
set_option autoImplicit false

/-- The generator with the floating-point arithmetic on its draws. -/
structure Draws (ρ υ ω : Type) where
  /-- `random.Random(seed)` -/
  random : Option ℤ → ρ
  /-- `_positive_uniform` -/
  positiveUniform : ρ → υ × ρ
  /-- `1.0` -/
  one : ω
  mul : ω → ω → ω
  /-- `math.exp(math.log(u) / rows)` -/
  decay : υ → ℕ → ω
  /-- `min(weight, _MAX_WEIGHT)` -/
  below : ω → ω
  /-- `int(math.log(u) / math.log1p(-weight))`, of two negative logarithms -/
  jump : υ → ω → ℕ
  randrange : ℕ → ρ → ℕ × ρ
  randrange_lt : ∀ n g, 0 < n → (randrange n g).1 < n

/-- What is drawn and recorded: the position that each slot holds and the next one to take. -/
structure Cursor (ρ ω : Type) where
  positions : List ℕ
  weight : ω
  nextTake : Option ℕ
  rng : ρ

/-- One batch: which of its rows are taken, and the slots that they go to. -/
structure Pass (ρ ω : Type) where
  taken : List ℕ
  slots : List ℕ
  cursor : Cursor ρ ω

structure Reservoir (α ρ ω : Type) where
  held : Option (List α)
  walked : ℕ
  cursor : Cursor ρ ω

/-- `_write_slots`. -/
def writeSlots {α : Type} (held : Option (List α)) (batch : List α) (taken slots : List ℕ) :
    Option (List α) := do
  let addition ← takeRows batch taken
  let base := (held.getD []).length
  let keep := putAll (List.range base) (slots.zipIdx base)
  takeRows (held.getD [] ++ addition) keep

section Walk
variable {α ρ υ ω : Type} (draws : Draws ρ υ ω) (rows : ℕ)

/-- `_skip`. -/
def skip (rng : ρ) (weight : ω) : ℕ × ρ :=
  let (u, rng) := draws.positiveUniform rng
  (draws.jump u (draws.below weight) + 1, rng)

/-- The reservoir has just become full. -/
def startTaking (c : Cursor ρ ω) : Cursor ρ ω :=
  let (u, rng) := draws.positiveUniform c.rng
  let weight := draws.decay u rows
  let (ahead, rng) := skip draws rng weight
  { c with weight := weight, nextTake := some (rows - 1 + ahead), rng := rng }

/-- A row takes a random slot; the slot and what is recorded after it. -/
def replace (c : Cursor ρ ω) (position : ℕ) : ℕ × Cursor ρ ω :=
  let (slot, rng) := draws.randrange rows c.rng
  let (u, rng) := draws.positiveUniform rng
  let weight := draws.mul c.weight (draws.decay u rows)
  let (ahead, rng) := skip draws rng weight
  (slot, ⟨c.positions.set slot position, weight, some (position + ahead), rng⟩)

/-- Rows go to free slots; with the last of them the taking starts. -/
def extend (c : Cursor ρ ω) (more : List ℕ) : Cursor ρ ω :=
  if (c.positions ++ more).length = rows then
    startTaking draws rows { c with positions := c.positions ++ more }
  else { c with positions := c.positions ++ more }

/-- The rows of a batch that go to free slots. -/
def fill (offset count : ℕ) (c : Cursor ρ ω) : Pass ρ ω :=
  if c.positions.length < rows then
    let fill := min (rows - c.positions.length) count
    { taken := List.range fill
      slots := List.range' c.positions.length fill
      cursor := extend draws rows c (List.range' offset fill) }
  else ⟨[], [], c⟩

theorem lt_replace (c : Cursor ρ ω) (position : ℕ) :
    ∃ next, (replace draws rows c position).2.nextTake = some next ∧ position < next :=
  ⟨_, rfl, Nat.lt_add_of_pos_right (Nat.succ_pos _)⟩

/-- The `while` of one batch, `none` where a slot is not there. -/
def replacing (offset count : ℕ) (p : Pass ρ ω) : Option (Pass ρ ω) :=
  match _htake : p.cursor.nextTake with
  | none => some p
  | some next =>
    if offset ≤ next ∧ next < offset + count then
      let slot := (replace draws rows p.cursor next).1
      if slot < p.cursor.positions.length then
        replacing offset count
          { taken := p.taken ++ [next - offset]
            slots := p.slots ++ [slot]
            cursor := (replace draws rows p.cursor next).2 }
      else none
    else some p
termination_by offset + count - p.cursor.nextTake.getD 0
decreasing_by
  obtain ⟨later, hlater, hlt⟩ := lt_replace draws rows p.cursor next
  simp only [hlater, _htake, Option.getD_some]
  omega

/-- One record batch. -/
def addBatch (r : Reservoir α ρ ω) (batch : List α) : Option (Reservoir α ρ ω) :=
  let offset := r.walked
  let r := { r with walked := r.walked + batch.length }
  if batch.length = 0 then some r
  else do
    let p ← replacing draws rows offset batch.length (fill draws rows offset batch.length r.cursor)
    if p.taken = [] then some { r with cursor := p.cursor }
    else do
      let held ← writeSlots r.held batch p.taken p.slots
      some { r with held := some held, cursor := p.cursor }

def emptyReservoir (seed : Option ℤ) : Reservoir α ρ ω :=
  ⟨none, 0, ⟨[], draws.one, none, draws.random seed⟩⟩

def addBatches (seed : Option ℤ) (batches : List (List α)) : Option (Reservoir α ρ ω) :=
  batches.foldlM (addBatch draws rows) (emptyReservoir draws seed)

/-- The slots in the order of the positions that they hold. -/
def fileOrder (positions : List ℕ) : List ℕ :=
  (List.range positions.length).insertionSort fun i j => positions.getD i 0 ≤ positions.getD j 0

/-- `reservoir_sample`. -/
def reservoirSample (seed : Option ℤ) (batches : List (List α)) : Option (List α × ℕ) := do
  let r ← addBatches draws rows seed batches
  match r.held with
  | none => some ([], r.walked)
  | some held => do
    let ordered ← takeRows held (fileOrder r.cursor.positions)
    some (ordered, r.walked)

/-! ## Row by row -/

/-- Algorithm L at one row. -/
def visit (c : Cursor ρ ω) (position : ℕ) : Cursor ρ ω :=
  if c.positions.length < rows then extend draws rows c [position]
  else if c.nextTake = some position then (replace draws rows c position).2
  else c

/-- What is recorded after a walk over so many rows. -/
structure Cursor.Sound (seen : ℕ) (c : Cursor ρ ω) : Prop where
  length : c.positions.length = min rows seen
  nodup : c.positions.Nodup
  walked : ∀ p ∈ c.positions, p < seen
  filling : rows = 0 ∨ seen < rows → c.nextTake = none
  taking : 0 < rows → rows ≤ seen → ∃ next, c.nextTake = some next ∧ seen ≤ next

variable {rows}

theorem sound_new (g : ρ) : Cursor.Sound rows 0 (⟨[], draws.one, none, g⟩ : Cursor ρ ω) where
  length := by simp
  nodup := List.nodup_nil
  walked := by simp
  filling := fun _ => rfl
  taking := by omega

variable {c : Cursor ρ ω} {seen : ℕ}

theorem nodup_set {xs : List ℕ} (h : xs.Nodup) {x : ℕ} (hx : x ∉ xs) (slot : ℕ) :
    (xs.set slot x).Nodup := by
  induction xs generalizing slot with
  | nil => exact List.nodup_nil
  | cons y ys ih =>
    obtain ⟨hy, hys⟩ := List.nodup_cons.mp h
    have hne : x ≠ y := fun heq => hx (heq ▸ List.mem_cons_self)
    have hnot : x ∉ ys := fun hmem => hx (List.mem_cons_of_mem _ hmem)
    cases slot with
    | zero => exact List.nodup_cons.mpr ⟨hnot, hys⟩
    | succ slot =>
      refine List.nodup_cons.mpr ⟨fun hmem => ?_, ih hys hnot slot⟩
      obtain hold | hnew := List.mem_or_eq_of_mem_set hmem
      · exact hy hold
      · exact hne hnew.symm

theorem Cursor.Sound.fresh (h : c.Sound rows seen) : seen ∉ c.positions :=
  fun hmem => Nat.lt_irrefl _ (h.walked seen hmem)

theorem Cursor.Sound.extend (h : c.Sound rows seen) (hfill : seen < rows) :
    (extend draws rows c [seen]).Sound rows (seen + 1) := by
  have hlength : (c.positions ++ [seen]).length = min rows (seen + 1) := by
    have hbefore := h.length
    rw [List.length_append, List.length_singleton]
    omega
  have hnodup : (c.positions ++ [seen]).Nodup := by
    rw [List.nodup_append]
    refine ⟨h.nodup, List.nodup_singleton _, ?_⟩
    intro a ha b hb heq
    rw [List.mem_singleton.mp hb] at heq
    exact h.fresh (heq ▸ ha)
  have hwalked : ∀ p ∈ c.positions ++ [seen], p < seen + 1 := by
    intro p hp
    obtain hp | hp := List.mem_append.mp hp
    · exact Nat.lt_succ_of_lt (h.walked p hp)
    · rw [List.mem_singleton.mp hp]
      exact Nat.lt_succ_self _
  unfold Sampling.extend
  split
  · refine ⟨hlength, hnodup, hwalked, by omega, fun _ _ => ⟨_, rfl, ?_⟩⟩
    show seen + 1 ≤ rows - 1 + (_ + 1)
    omega
  · exact ⟨hlength, hnodup, hwalked, fun _ => h.filling (by omega), by omega⟩

theorem Cursor.Sound.replace (h : c.Sound rows seen) (hrows : 0 < rows) (htaking : rows ≤ seen) :
    (replace draws rows c seen).2.Sound rows (seen + 1) where
  length := by
    have hbefore := h.length
    show (c.positions.set _ seen).length = _
    rw [List.length_set]
    omega
  nodup := nodup_set h.nodup h.fresh _
  walked := by
    intro p hp
    obtain hp | hp := List.mem_or_eq_of_mem_set hp
    · exact Nat.lt_succ_of_lt (h.walked p hp)
    · omega
  filling := by omega
  taking := fun _ _ => ⟨_, rfl, Nat.add_le_add_left (Nat.succ_pos _) _⟩

theorem visit_filling (h : c.Sound rows seen) (hfill : seen < rows) :
    visit draws rows c seen = extend draws rows c [seen] := by
  have hlength := h.length
  exact if_pos (by omega)

theorem visit_taking (h : c.Sound rows seen) (hfull : rows ≤ seen) :
    visit draws rows c seen =
      if c.nextTake = some seen then (replace draws rows c seen).2 else c := by
  have hlength := h.length
  exact if_neg (by omega)

/-- A row that is not taken changes nothing. -/
theorem Cursor.Sound.pass (h : c.Sound rows seen) (hfull : rows ≤ seen)
    (hnext : c.nextTake ≠ some seen) : c.Sound rows (seen + 1) := by
  refine ⟨?_, h.nodup, fun p hp => Nat.lt_succ_of_lt (h.walked p hp), ?_, ?_⟩
  · have hlength := h.length
    omega
  · intro hidle
    exact h.filling (by omega)
  · intro hrows _
    obtain ⟨next, hsome, hle⟩ := h.taking hrows hfull
    have hne : next ≠ seen := fun heq => hnext (heq ▸ hsome)
    exact ⟨next, hsome, by omega⟩

theorem Cursor.Sound.visit (h : c.Sound rows seen) :
    (visit draws rows c seen).Sound rows (seen + 1) := by
  by_cases hfill : seen < rows
  · rw [visit_filling draws h hfill]
    exact h.extend draws hfill
  · have hfull : rows ≤ seen := Nat.le_of_not_lt hfill
    rw [visit_taking draws h hfull]
    split
    · next hnext =>
      have hrows : 0 < rows := by
        by_contra hzero
        rw [h.filling (by omega)] at hnext
        cases hnext
      exact h.replace draws hrows hfull
    · next hnext => exact h.pass hfull hnext

/-- What is recorded after the next rows. -/
def visits (draws : Draws ρ υ ω) (rows : ℕ) (c : Cursor ρ ω) (seen count : ℕ) : Cursor ρ ω :=
  (List.range' seen count).foldl (Sampling.visit draws rows) c

theorem visits_succ (c : Cursor ρ ω) (seen count : ℕ) :
    visits draws rows c seen (count + 1) =
      visits draws rows (visit draws rows c seen) (seen + 1) count := by
  rw [visits, List.range'_succ]
  rfl

theorem visits_add (c : Cursor ρ ω) (seen m n : ℕ) :
    visits draws rows c seen (m + n) =
      visits draws rows (visits draws rows c seen m) (seen + m) n := by
  unfold visits
  rw [← List.foldl_append]
  congr 1
  exact List.range'_append_1.symm

theorem Cursor.Sound.visits (h : c.Sound rows seen) (count : ℕ) :
    (visits draws rows c seen count).Sound rows (seen + count) := by
  induction count generalizing c seen with
  | zero => exact h
  | succ count ih =>
    rw [visits_succ, show seen + (count + 1) = seen + 1 + count by omega]
    exact ih (h.visit draws)

/-- Filling in bulk is filling row by row. -/
theorem extend_visits (h : c.Sound rows seen) {n : ℕ} (hfits : seen + (n + 1) ≤ rows) :
    extend draws rows c (List.range' seen (n + 1)) = visits draws rows c seen (n + 1) := by
  induction n generalizing c seen with
  | zero =>
    rw [visits_succ, visit_filling draws h (by omega)]
    rfl
  | succ n ih =>
    have hlength := h.length
    have hnot : (c.positions ++ [seen]).length ≠ rows := by
      rw [List.length_append, List.length_singleton]
      omega
    have hone : extend draws rows c [seen] = { c with positions := c.positions ++ [seen] } :=
      if_neg hnot
    have hsound := h.extend draws (by omega)
    rw [visits_succ, visit_filling draws h (by omega), hone]
    rw [hone] at hsound
    rw [← ih hsound (by omega), List.range'_succ]
    unfold extend
    simp only [List.append_assoc, List.singleton_append]

/-! ## A batch at once -/

/-- The record of one batch is what its writes leave of the record before it. -/
structure Pass.Sound (before : List ℕ) (offset count : ℕ) (p : Pass ρ ω) : Prop where
  written : p.cursor.positions = putAll before (p.slots.zip (p.taken.map (offset + ·)))
  length : p.slots.length = p.taken.length
  inside : ∀ row ∈ p.taken, row < count

theorem Pass.Sound.take {before : List ℕ} {offset count : ℕ} {p : Pass ρ ω}
    (h : p.Sound before offset count) {seen : ℕ} (hoffset : offset ≤ seen)
    (hseen : seen < offset + count)
    (hslot : (replace draws rows p.cursor seen).1 < p.cursor.positions.length) :
    Pass.Sound before offset count
      { taken := p.taken ++ [seen - offset]
        slots := p.slots ++ [(replace draws rows p.cursor seen).1]
        cursor := (replace draws rows p.cursor seen).2 } where
  written := by
    have hput : put p.cursor.positions (replace draws rows p.cursor seen).1 seen =
        (replace draws rows p.cursor seen).2.positions := if_pos hslot
    have hat : offset + (seen - offset) = seen := by omega
    have hzip : (p.slots ++ [(replace draws rows p.cursor seen).1]).zip
        (p.taken.map (offset + ·) ++ [offset + (seen - offset)]) =
        p.slots.zip (p.taken.map (offset + ·)) ++
          [((replace draws rows p.cursor seen).1, offset + (seen - offset))] :=
      List.zip_append (by rw [List.length_map, h.length])
    show (replace draws rows p.cursor seen).2.positions = putAll before
      ((p.slots ++ [(replace draws rows p.cursor seen).1]).zip
        ((p.taken ++ [seen - offset]).map (offset + ·)))
    rw [List.map_append, List.map_singleton, hzip, putAll_append, ← h.written, hat]
    exact hput.symm
  length := by
    show (p.slots ++ _).length = (p.taken ++ _).length
    rw [List.length_append, List.length_append, h.length]
    rfl
  inside := by
    intro row hrow
    obtain hrow | hrow := List.mem_append.mp hrow
    · exact h.inside row hrow
    · rw [List.mem_singleton.mp hrow]
      omega

theorem Pass.Sound.fill (h : c.Sound rows seen) (count : ℕ) :
    Pass.Sound c.positions seen count (fill draws rows seen count c) := by
  have hlength := h.length
  unfold Sampling.fill
  split
  · next hfill =>
    refine ⟨?_, by simp, fun row hrow => ?_⟩
    · have hextend : (Sampling.extend draws rows c
          (List.range' seen (min (rows - c.positions.length) count))).positions =
          c.positions ++ List.range' seen (min (rows - c.positions.length) count) := by
        unfold Sampling.extend
        split <;> rfl
      have hput := putAll_range c.positions
        (List.range' seen (min (rows - c.positions.length) count))
      rw [List.length_range'] at hput
      show _ = putAll c.positions (List.zip _ ((List.range _).map (seen + ·)))
      rw [hextend, ← hput, List.range'_eq_map_range (s := seen)]
    · have hlt := List.mem_range.mp hrow
      omega
  · exact ⟨rfl, rfl, by simp⟩

/-- The `while` takes the rows that single visits take, and stays within the slots. -/
theorem replacing_visits {before : List ℕ} {offset count n : ℕ} {p : Pass ρ ω}
    (hp : p.Sound before offset count) (h : p.cursor.Sound rows seen) (hoffset : offset ≤ seen)
    (hn : seen + n = offset + count) (hfull : rows = 0 ∨ rows ≤ seen ∨ n = 0) :
    ∃ p', replacing draws rows offset count p = some p' ∧ p'.Sound before offset count ∧
      p'.cursor = visits draws rows p.cursor seen n := by
  induction n generalizing p seen with
  | zero =>
    refine ⟨p, ?_, hp, rfl⟩
    rw [replacing]
    split
    · rfl
    · next next hnext =>
      by_cases hidle : rows = 0 ∨ seen < rows
      · rw [h.filling hidle] at hnext
        cases hnext
      · obtain ⟨next', hsome, hle⟩ := h.taking (by omega) (by omega)
        rw [hnext] at hsome
        cases hsome
        exact if_neg (by omega)
  | succ n ih =>
    have htaking : rows ≤ seen := by omega
    have hvisit := visit_taking draws h htaking
    have hrest : rows = 0 ∨ rows ≤ seen + 1 ∨ n = 0 := by omega
    rw [visits_succ]
    by_cases hnext : p.cursor.nextTake = some seen
    · have hrows : 0 < rows := by
        by_contra hzero
        rw [h.filling (by omega)] at hnext
        cases hnext
      have hslot : (replace draws rows p.cursor seen).1 < p.cursor.positions.length := by
        have hlength := h.length
        have hdrawn := draws.randrange_lt rows p.cursor.rng hrows
        show (draws.randrange rows p.cursor.rng).1 < _
        omega
      have hunfold : replacing draws rows offset count p = replacing draws rows offset count
          { taken := p.taken ++ [seen - offset]
            slots := p.slots ++ [(replace draws rows p.cursor seen).1]
            cursor := (replace draws rows p.cursor seen).2 } := by
        rw [replacing]
        split
        · next hnone =>
          rw [hnone] at hnext
          cases hnext
        · next next hsome =>
          rw [hsome] at hnext
          cases hnext
          rw [if_pos (by omega), if_pos hslot]
      rw [hunfold, hvisit, if_pos hnext]
      exact ih (hp.take draws hoffset (by omega) hslot) (h.replace draws hrows htaking) (by omega)
        (by omega) hrest
    · rw [hvisit, if_neg hnext]
      exact ih hp (h.pass htaking hnext) (by omega) (by omega) hrest

theorem fill_visits (h : c.Sound rows seen) {count : ℕ} (hcount : 0 < count) :
    ∃ n ≤ count, (fill draws rows seen count c).cursor = visits draws rows c seen n ∧
      (rows = 0 ∨ rows ≤ seen + n ∨ n = count) := by
  have hlength := h.length
  unfold Sampling.fill
  split
  · next hfill =>
    have hn : min (rows - c.positions.length) count =
        min (rows - c.positions.length) count - 1 + 1 := by omega
    refine ⟨min (rows - c.positions.length) count, by omega, ?_, by omega⟩
    show extend draws rows c (List.range' seen (min (rows - c.positions.length) count)) = _
    rw [hn]
    exact extend_visits draws h (by omega)
  · exact ⟨0, Nat.zero_le _, rfl, by omega⟩

theorem batch_visits (h : c.Sound rows seen) {count : ℕ} (hcount : 0 < count) :
    ∃ p, replacing draws rows seen count (fill draws rows seen count c) = some p ∧
      p.Sound c.positions seen count ∧ p.cursor = visits draws rows c seen count := by
  obtain ⟨n, hn, hfill, hfull⟩ := fill_visits draws h hcount
  have hsound := h.visits draws n
  rw [← hfill] at hsound
  obtain ⟨p, hp, hwritten, hcursor⟩ := replacing_visits draws (n := count - n)
    (Pass.Sound.fill draws h count) hsound (Nat.le_add_right _ _) (by omega) (by omega)
  refine ⟨p, hp, hwritten, ?_⟩
  rw [hcursor, hfill, ← visits_add, Nat.add_sub_cancel' hn]

/-- Each slot holds the row whose position is recorded for it. -/
def Records (stream held : List α) (positions : List ℕ) : Prop :=
  held.map some = positions.map (stream[·]?)

theorem writeSlots_records {stream batch : List α} {held : Option (List α)} {positions : List ℕ}
    (hheld : Records stream (held.getD []) positions) (hwalked : ∀ p ∈ positions, p < stream.length)
    {p : Pass ρ ω} (hp : p.Sound positions stream.length batch.length)
    (hinside : ∀ q ∈ p.cursor.positions, q < (stream ++ batch).length) :
    ∃ held', writeSlots held batch p.taken p.slots = some held' ∧
      Records (stream ++ batch) held' p.cursor.positions := by
  obtain ⟨addition, haddition⟩ := exists_rows hp.inside
  obtain ⟨held', hheld'⟩ := exists_rows hinside
  have hlength : p.slots.length = addition.length := by
    have := congrArg List.length haddition
    rw [List.length_map, List.length_map] at this
    rw [hp.length, this]
  -- the rows that are kept are the rows at the positions that are recorded
  have hold : positions.map (stream[·]?) = positions.map ((stream ++ batch)[·]?) := by
    apply List.map_congr_left
    intro place hplace
    exact (List.getElem?_append_left (hwalked place hplace)).symm
  have hnew : addition.map some =
      (p.taken.map (stream.length + ·)).map ((stream ++ batch)[·]?) := by
    rw [← haddition, List.map_map]
    apply List.map_congr_left
    intro row _
    simp [List.getElem?_append_right]
  have hslots : p.slots.zipIdx (held.getD []).length =
      p.slots.zip (List.range' (held.getD []).length addition.length) := by
    rw [List.zipIdx_eq_zip_range', hlength]
  have hkept : (putAll (List.range (held.getD []).length)
      (p.slots.zipIdx (held.getD []).length)).map ((held.getD [] ++ addition)[·]?) =
      held'.map some := by
    rw [hslots, map_putAll_zip, map_range_append, map_range'_append, hheld, hold, hnew, ← hheld',
      hp.written, map_putAll_zip]
  refine ⟨held', ?_, hheld'.symm⟩
  rw [writeSlots, takeRows_eq_some.mpr haddition]
  exact takeRows_eq_some.mpr hkept

/-- What holds after every batch. -/
structure Reservoir.Sound (rows : ℕ) (stream : List α) (r : Reservoir α ρ ω) : Prop where
  walked : r.walked = stream.length
  cursor : r.cursor.Sound rows stream.length
  records : Records stream (r.held.getD []) r.cursor.positions

variable {stream : List α} {r : Reservoir α ρ ω}

theorem addBatch_sound (h : r.Sound rows stream) (batch : List α) :
    ∃ r', addBatch draws rows r batch = some r' ∧ r'.Sound rows (stream ++ batch) ∧
      r'.cursor = visits draws rows r.cursor stream.length batch.length := by
  by_cases hempty : batch.length = 0
  · have hnil : batch = [] := List.length_eq_zero_iff.mp hempty
    refine ⟨{ r with walked := r.walked + batch.length }, by simp [addBatch, hempty], ?_, ?_⟩
    · subst hnil
      rw [List.append_nil]
      exact ⟨h.walked, h.cursor, h.records⟩
    · rw [hempty]
      rfl
  · obtain ⟨p, hp, hwritten, hcursor⟩ := batch_visits draws h.cursor (Nat.pos_of_ne_zero hempty)
    have hsound := h.cursor.visits draws batch.length
    rw [← hcursor, ← List.length_append] at hsound
    have hwalked : r.walked + batch.length = (stream ++ batch).length := by
      rw [List.length_append, h.walked]
    rw [← h.walked] at hp
    by_cases htaken : p.taken = []
    · have hsame : p.cursor.positions = r.cursor.positions := by
        rw [hwritten.written, htaken]
        simp [putAll]
      refine ⟨⟨r.held, r.walked + batch.length, p.cursor⟩, ?_, ⟨hwalked, hsound, ?_⟩, hcursor⟩
      · simp only [addBatch, if_neg hempty, hp, Option.bind_eq_bind, Option.bind_some,
          if_pos htaken]
      · show (r.held.getD []).map some = p.cursor.positions.map _
        rw [hsame, h.records]
        apply List.map_congr_left
        intro place hplace
        exact (List.getElem?_append_left (h.cursor.walked place hplace)).symm
    · obtain ⟨held, hheld, hrecords⟩ :=
        writeSlots_records h.records h.cursor.walked hwritten hsound.walked
      refine ⟨⟨some held, r.walked + batch.length, p.cursor⟩, ?_, ⟨hwalked, hsound, hrecords⟩,
        hcursor⟩
      simp only [addBatch, if_neg hempty, hp, Option.bind_eq_bind, Option.bind_some, if_neg htaken,
        hheld]

/-- Over all batches the record is the one of the single rows. -/
theorem addBatches_sound (h : r.Sound rows stream) (batches : List (List α)) :
    ∃ r', batches.foldlM (addBatch draws rows) r = some r' ∧
      r'.Sound rows (stream ++ batches.flatten) ∧
      r'.cursor = visits draws rows r.cursor stream.length batches.flatten.length := by
  induction batches generalizing r stream with
  | nil =>
    refine ⟨r, rfl, ?_, rfl⟩
    rwa [List.flatten_nil, List.append_nil]
  | cons batch batches ih =>
    obtain ⟨r₁, hstep, hsound, hcursor⟩ := addBatch_sound draws h batch
    obtain ⟨r₂, hrest, hsound₂, hcursor₂⟩ := ih hsound
    refine ⟨r₂, ?_, ?_, ?_⟩
    · rw [List.foldlM_cons, hstep]
      exact hrest
    · rw [List.flatten_cons, ← List.append_assoc]
      exact hsound₂
    · rw [hcursor₂, hcursor, List.flatten_cons, List.length_append, List.length_append, visits_add]

/-! ## In file order -/

theorem fileOrder_perm (positions : List ℕ) :
    (fileOrder positions).Perm (List.range positions.length) := List.perm_insertionSort _ _

theorem fileOrder_positions (positions : List ℕ) :
    ((fileOrder positions).map (positions.getD · 0)).Perm positions := by
  have hrange : (List.range positions.length).map (positions.getD · 0) = positions := by
    apply List.ext_getElem?
    intro k
    by_cases hk : k < positions.length <;> simp [hk]
  have hperm := (fileOrder_perm positions).map (positions.getD · 0)
  rwa [hrange] at hperm

theorem fileOrder_increasing {positions : List ℕ} (h : positions.Nodup) :
    ((fileOrder positions).map (positions.getD · 0)).Pairwise (· < ·) := by
  have hle : (fileOrder positions).Pairwise
      fun i j => positions.getD i 0 ≤ positions.getD j 0 := by
    have := List.pairwise_insertionSort
      (fun i j => positions.getD i 0 ≤ positions.getD j 0) (List.range positions.length)
    exact this
  have hne := (fileOrder_positions positions).nodup_iff.mpr h
  exact (List.pairwise_map.mpr hle).imp₂ (fun _ _ hab hne => lt_of_le_of_ne hab hne) hne

theorem Records.slot {held : List α} {positions : List ℕ} (h : Records stream held positions)
    {slot : ℕ} (hslot : slot < positions.length) :
    held[slot]? = stream[positions.getD slot 0]? := by
  have hat := congrArg (fun rows : List (Option α) => rows[slot]?) h
  simp only [List.getElem?_map, List.getElem?_eq_getElem hslot, Option.map_some] at hat
  have hgetD : positions.getD slot 0 = positions.get ⟨slot, hslot⟩ := by simp [hslot]
  rw [hgetD]
  cases hheld : held[slot]? with
  | none =>
    rw [hheld] at hat
    cases hat
  | some row =>
    rw [hheld] at hat
    exact Option.some.inj hat

theorem takeRows_fileOrder {held : List α} {positions : List ℕ}
    (h : Records stream held positions) :
    takeRows held (fileOrder positions) =
      takeRows stream ((fileOrder positions).map (positions.getD · 0)) := by
  apply takeRows_congr
  rw [List.map_map]
  apply List.map_congr_left
  intro slot hmem
  exact h.slot (List.mem_range.mp ((fileOrder_perm positions).mem_iff.mp hmem))

/-- The positions that are sampled out of so many rows. -/
def sampled (draws : Draws ρ υ ω) (rows : ℕ) (seed : Option ℤ) (total : ℕ) : List ℕ :=
  let c := visits draws rows ⟨[], draws.one, none, draws.random seed⟩ 0 total
  (fileOrder c.positions).map (c.positions.getD · 0)

theorem emptyReservoir_sound (rows : ℕ) (seed : Option ℤ) :
    (emptyReservoir draws seed : Reservoir α ρ ω).Sound rows [] :=
  ⟨rfl, sound_new draws _, rfl⟩

theorem reservoirSample_eq (seed : Option ℤ) (batches : List (List α)) :
    reservoirSample draws rows seed batches =
      (takeRows batches.flatten (sampled draws rows seed batches.flatten.length)).map
        (·, batches.flatten.length) := by
  obtain ⟨r, hr, hsound, hcursor⟩ :=
    addBatches_sound draws (emptyReservoir_sound draws rows seed) batches
  rw [List.nil_append] at hsound
  have hplaces : sampled draws rows seed batches.flatten.length =
      (fileOrder r.cursor.positions).map (r.cursor.positions.getD · 0) := by
    rw [hcursor]
    rfl
  have hrows := takeRows_fileOrder hsound.records
  rw [hplaces, ← hrows, reservoirSample, addBatches, hr, ← hsound.walked]
  cases hheld : r.held with
  | none =>
    have hnone : r.cursor.positions = [] := by
      have hrecords := hsound.records
      rw [hheld] at hrecords
      exact List.map_eq_nil_iff.mp hrecords.symm
    simp [hheld, hnone, fileOrder, takeRows]
  | some held => simp [hheld, Option.map_eq_bind]

/-- The sample is so many distinct rows of the stream in its order, with the exact count; each slot
always holds its recorded row; and only the rows matter, not their batches. -/
theorem reservoir_sample_is_a_sample (draws : Draws ρ υ ω) (rows : ℕ) (seed : Option ℤ)
    (batches : List (List α)) :
    (∃ places sample, places.Pairwise (· < ·) ∧
      places.length = min rows batches.flatten.length ∧
      takeRows batches.flatten places = some sample ∧
      reservoirSample draws rows seed batches = some (sample, batches.flatten.length)) ∧
    (∀ n, ∃ r, addBatches draws rows seed (batches.take n) = some r ∧
      Records (batches.take n).flatten (r.held.getD []) r.cursor.positions) ∧
    ∀ split : List (List α), split.flatten = batches.flatten →
      reservoirSample draws rows seed split = reservoirSample draws rows seed batches := by
  refine ⟨?_, fun n => ?_, fun split hsplit => ?_⟩
  · have hnew : Cursor.Sound rows 0 ⟨[], draws.one, none, draws.random seed⟩ := sound_new draws _
    have hsound := hnew.visits draws batches.flatten.length
    rw [Nat.zero_add] at hsound
    have hperm := fileOrder_positions (visits draws rows ⟨[], draws.one, none, draws.random seed⟩ 0
      batches.flatten.length).positions
    obtain ⟨sample, hsample⟩ := exists_rows
      fun place hplace => hsound.walked place (hperm.mem_iff.mp hplace)
    have htake := takeRows_eq_some.mpr hsample
    refine ⟨_, sample, fileOrder_increasing hsound.nodup, ?_, htake, ?_⟩
    · rw [hperm.length_eq, hsound.length]
    · rw [reservoirSample_eq]
      exact congrArg (Option.map _) htake
  · obtain ⟨r, hr, hsound, _⟩ :=
      addBatches_sound draws (emptyReservoir_sound draws rows seed) (batches.take n)
    exact ⟨r, hr, hsound.records⟩
  · rw [reservoirSample_eq, reservoirSample_eq, hsplit]

end Walk

end DataQ.Sampling
