import Mathlib.Data.List.Basic
import Mathlib.Tactic.Common

/-! # Numbered slots

A list that is written by number: a slot that is there is overwritten, the next one is appended.
And the rows of a table at given places. -/

namespace DataQ.Slots
set_option autoImplicit false

variable {α β : Type*}

def put (xs : List α) (slot : ℕ) (x : α) : List α :=
  if slot < xs.length then xs.set slot x else xs ++ [x]

def putAll (xs : List α) (writes : List (ℕ × α)) : List α :=
  writes.foldl (fun xs write => put xs write.1 write.2) xs

/-- The rows at the given places, `none` where one of them is outside of the table. -/
def takeRows (table : List α) (places : List ℕ) : Option (List α) := places.mapM (table[·]?)

theorem map_put (f : α → β) (xs : List α) (slot : ℕ) (x : α) :
    (put xs slot x).map f = put (xs.map f) slot (f x) := by
  unfold put
  rw [List.length_map]
  split
  · exact List.map_set
  · simp

theorem map_putAll (f : α → β) (xs : List α) (writes : List (ℕ × α)) :
    (putAll xs writes).map f = putAll (xs.map f) (writes.map (Prod.map id f)) := by
  induction writes generalizing xs with
  | nil => rfl
  | cons write writes ih =>
    have hhead := map_put f xs write.1 write.2
    have htail := ih (put xs write.1 write.2)
    rw [hhead] at htail
    exact htail

theorem map_putAll_zip (f : α → β) (xs : List α) (slots : List ℕ) (ys : List α) :
    (putAll xs (slots.zip ys)).map f = putAll (xs.map f) (slots.zip (ys.map f)) := by
  rw [map_putAll, List.zip_map_right]

theorem putAll_append (xs : List α) (first more : List (ℕ × α)) :
    putAll xs (first ++ more) = putAll (putAll xs first) more := List.foldl_append

/-- Slots that go on where the list ends are appended. -/
theorem putAll_range (xs ys : List α) :
    putAll xs ((List.range' xs.length ys.length).zip ys) = xs ++ ys := by
  induction ys generalizing xs with
  | nil => simp [putAll]
  | cons y ys ih =>
    have hput : put xs xs.length y = xs ++ [y] := if_neg (Nat.lt_irrefl _)
    have hrest := ih (xs ++ [y])
    rw [List.length_append, List.length_singleton, List.append_assoc,
      List.singleton_append] at hrest
    rw [List.length_cons, List.range'_succ, List.zip_cons_cons, putAll, List.foldl_cons, hput]
    exact hrest

theorem takeRows_eq_some {table rows : List α} {places : List ℕ} :
    takeRows table places = some rows ↔ places.map (table[·]?) = rows.map some := by
  unfold takeRows
  induction places generalizing rows with
  | nil => cases rows <;> simp
  | cons place places ih =>
    rw [List.mapM_cons, List.map_cons]
    cases hplace : table[place]? with
    | none => cases rows <;> simp
    | some row =>
      cases rows with
      | nil => cases hmore : places.mapM (table[·]?) <;> simp
      | cons first rows =>
        have hrest : (do let more ← places.mapM (table[·]?); pure (row :: more)) =
            some (first :: rows) ↔ row = first ∧ places.mapM (table[·]?) = some rows := by
          cases hmore : places.mapM (table[·]?) <;> simp
        rw [List.map_cons, List.cons.injEq, Option.some.injEq, ← ih]
        exact hrest

/-- The same rows are taken where the places hold the same. -/
theorem takeRows_congr {table table' : List α} {places places' : List ℕ}
    (h : places.map (table[·]?) = places'.map (table'[·]?)) :
    takeRows table places = takeRows table' places' := by
  ext rows
  rw [takeRows_eq_some, takeRows_eq_some, h]

theorem exists_rows {table : List α} {places : List ℕ}
    (h : ∀ place ∈ places, place < table.length) :
    ∃ rows : List α, places.map (table[·]?) = rows.map some := by
  induction places with
  | nil => exact ⟨[], rfl⟩
  | cons place places ih =>
    obtain ⟨rows, hrows⟩ := ih fun p hp => h p (List.mem_cons_of_mem _ hp)
    have hplace := List.getElem?_eq_getElem (h place List.mem_cons_self)
    exact ⟨_ :: rows, by rw [List.map_cons, List.map_cons, hplace, hrows]⟩

theorem map_range_append (xs ys : List α) :
    (List.range xs.length).map ((xs ++ ys)[·]?) = xs.map some := by
  apply List.ext_getElem?
  intro k
  by_cases hk : k < xs.length
  · simp [hk, List.getElem?_append_left]
  · simp [hk]

theorem map_range'_append (xs ys : List α) :
    (List.range' xs.length ys.length).map ((xs ++ ys)[·]?) = ys.map some := by
  apply List.ext_getElem?
  intro k
  by_cases hk : k < ys.length
  · simp [hk]
  · simp [hk]

end DataQ.Slots
