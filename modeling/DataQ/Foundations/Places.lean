import DataQ.Foundations.Json

/-! # Places in a JSON value

A path of keys and indices names a place. One value keeps another's marks where it holds the mark at
every place at which the other does, but for the places that are let off. -/

namespace DataQ.Json
set_option autoImplicit false

inductive Step
  | key (name : Text)
  | index (i : ℕ)
  deriving DecidableEq, Repr

def child : Json → Step → Option Json
  | .obj fields, .key name => fields.lookup name
  | .arr items, .index i => items[i]?
  | _, _ => none

def readAt : List Step → Json → Option Json
  | [], value => some value
  | step :: path, value => (value.child step).bind (readAt path)

def KeepsMark (mark : Json) (letOff : List Step → Prop) (before after : Json) : Prop :=
  ∀ path, before.readAt path = some mark → letOff path ∨ after.readAt path = some mark

variable {mark : Json} {letOff : List Step → Prop}

theorem KeepsMark.refl (value : Json) : KeepsMark mark letOff value value :=
  fun _ hread => .inr hread

theorem keepsMark_of_letOff (h : ∀ path, letOff path) (before after : Json) :
    KeepsMark mark letOff before after :=
  fun path _ => .inl (h path)

theorem keepsMark_of_child {before after : Json} (hroot : before ≠ mark)
    (h : ∀ step value, before.child step = some value →
      ∃ value', after.child step = some value' ∧
        KeepsMark mark (fun path => letOff (step :: path)) value value') :
    KeepsMark mark letOff before after := by
  intro path hread
  cases path with
  | nil => exact absurd (Option.some.inj hread) hroot
  | cons step path =>
    obtain ⟨value, hchild, hrest⟩ := Option.bind_eq_some_iff.mp hread
    obtain ⟨value', hchild', hkeeps⟩ := h step value hchild
    have hafter : after.readAt (step :: path) = value'.readAt path := by
      rw [readAt, hchild', Option.bind_some]
    rw [hafter]
    exact hkeeps path hrest

theorem keepsMark_items {α : Type} {items : List α} {f g : α → Json}
    (hroot : ∀ items, .arr items ≠ mark)
    (h : ∀ i item, items[i]? = some item →
      KeepsMark mark (fun path => letOff (.index i :: path)) (f item) (g item)) :
    KeepsMark mark letOff (.arr (items.map f)) (.arr (items.map g)) := by
  apply keepsMark_of_child (hroot _)
  intro step value hchild
  cases step with
  | key name => cases hchild
  | index i =>
    simp only [child, List.getElem?_map] at hchild ⊢
    obtain ⟨item, hitem, rfl⟩ := Option.map_eq_some_iff.mp hchild
    exact ⟨g item, by rw [hitem, Option.map_some], h i item hitem⟩

theorem lookup_map_value {fields : Fields} (f : Text × Json → Json) (name : Text) :
    (fields.map fun field => (field.1, f field)).lookup name =
      (fields.lookup name).map fun value => f (name, value) := by
  induction fields with
  | nil => rfl
  | cons field fields ih =>
    obtain ⟨key, value⟩ := field
    rw [List.map_cons, List.lookup_cons, List.lookup_cons, ih]
    cases hname : name == key with
    | true => rw [eq_of_beq hname, Option.map_some]
    | false => rfl

theorem keepsMark_fields {fields : Fields} {f g : Text × Json → Json}
    (hroot : ∀ fields, .obj fields ≠ mark)
    (h : ∀ name value, fields.lookup name = some value →
      KeepsMark mark (fun path => letOff (.key name :: path)) (f (name, value)) (g (name, value))) :
    KeepsMark mark letOff (.obj (fields.map fun field => (field.1, f field)))
      (.obj (fields.map fun field => (field.1, g field))) := by
  apply keepsMark_of_child (hroot _)
  intro step value hchild
  cases step with
  | index i => cases hchild
  | key name =>
    simp only [child, lookup_map_value] at hchild ⊢
    obtain ⟨old, hold, rfl⟩ := Option.map_eq_some_iff.mp hchild
    exact ⟨g (name, old), by rw [hold, Option.map_some], h name old hold⟩

/-- One field set to two values: the rest is the same. -/
theorem keepsMark_setField {fields : Fields} {key : Text} {value value' : Json}
    (hroot : ∀ fields, .obj fields ≠ mark)
    (h : KeepsMark mark (fun path => letOff (.key key :: path)) value value') :
    KeepsMark mark letOff (.obj (setField key value fields)) (.obj (setField key value' fields)) := by
  apply keepsMark_of_child (hroot _)
  intro step old hchild
  cases step with
  | index i => cases hchild
  | key name =>
    simp only [child] at hchild ⊢
    by_cases hname : name = key
    · subst hname
      rw [lookup_setField_self] at hchild ⊢
      obtain rfl := Option.some.inj hchild
      exact ⟨value', rfl, h⟩
    · rw [lookup_setField_ne hname] at hchild ⊢
      exact ⟨old, hchild, KeepsMark.refl old⟩

end DataQ.Json
