import DataQ.Foundations.Dictionary

/-! # The last of a key

A dictionary that is built from a list keeps the last entry of each key. Two dictionaries of one
list, each keyed by what the other one holds, are inverse where neither holds a value twice. -/

namespace DataQ.Winners
set_option autoImplicit false

variable {α κ κ' υ : Type*} [BEq κ] [LawfulBEq κ] [BEq κ'] [LawfulBEq κ']

/-- `{key(x): value(x) for x in items}`. -/
def dictOf (key : α → κ) (value : α → υ) (items : List α) : List (κ × υ) :=
  items.foldl (fun entries item => setField (key item) (value item) entries) []

theorem nodup_dictOf (key : α → κ) (value : α → υ) (items : List α) :
    ((dictOf key value items).map Prod.fst).Nodup := by
  induction items using List.reverseRecOn with
  | nil => exact List.nodup_nil
  | append_singleton items item ih =>
    rw [dictOf, List.foldl_append]
    exact nodup_setField ih

theorem setField_of_not_mem {entries : List (κ × υ)} {k : κ} {v : υ}
    (h : k ∉ entries.map Prod.fst) : setField k v entries = entries ++ [(k, v)] := by
  induction entries with
  | nil => rfl
  | cons entry entries ih =>
    rw [List.map_cons, List.mem_cons, not_or] at h
    have hne : ¬ (entry.1 == k) = true := by simpa using Ne.symm h.1
    rw [setField, if_neg hne, ih h.2]
    rfl

/-- The entries of a dictionary make up this dictionary again. -/
theorem dictOf_of_nodup {entries : List (κ × υ)} (h : (entries.map Prod.fst).Nodup) :
    dictOf Prod.fst Prod.snd entries = entries := by
  induction entries using List.reverseRecOn with
  | nil => rfl
  | append_singleton entries entry ih =>
    rw [List.map_append, List.nodup_append] at h
    have hnew : entry.1 ∉ entries.map Prod.fst := fun hmem =>
      h.2.2 _ hmem _ (by simp) rfl
    have hrec := ih h.1
    rw [dictOf] at hrec ⊢
    rw [List.foldl_append, hrec]
    exact setField_of_not_mem hnew

/-- No later item has its key. -/
def Wins (key : α → κ) (items : List α) (item : α) : Prop :=
  items.reverse.find? (fun other => key other == key item) = some item

theorem lookup_dictOf {key : α → κ} {value : α → υ} {items : List α} {k : κ} :
    (dictOf key value items).lookup k =
      (items.reverse.find? fun item => key item == k).map value := by
  induction items using List.reverseRecOn with
  | nil => rfl
  | append_singleton items item ih =>
    rw [dictOf, List.foldl_append, List.reverse_append]
    change (setField (key item) (value item) (dictOf key value items)).lookup k =
      ((item :: items.reverse).find? fun item => key item == k).map value
    by_cases hkey : key item = k
    · rw [List.find?_cons_of_pos (by simpa using hkey), ← hkey, lookup_setField_self]
      rfl
    · rw [List.find?_cons_of_neg (by simpa using hkey), lookup_setField_ne (Ne.symm hkey), ih]

/-- An entry is that of an item that wins. -/
theorem lookup_eq_some {key : α → κ} {value : α → υ} {items : List α} {k : κ} {v : υ} :
    (dictOf key value items).lookup k = some v ↔
      ∃ item ∈ items, Wins key items item ∧ key item = k ∧ value item = v := by
  rw [lookup_dictOf, Option.map_eq_some_iff]
  constructor
  · rintro ⟨item, hfind, hvalue⟩
    have hkey : key item = k := by simpa using List.find?_some hfind
    refine ⟨item, List.mem_reverse.mp (List.mem_of_find?_eq_some hfind), ?_, hkey, hvalue⟩
    rw [Wins, hkey]
    exact hfind
  · rintro ⟨item, -, hwins, rfl, hvalue⟩
    exact ⟨item, hwins, hvalue⟩

/-- Every key of an item is won. -/
theorem exists_wins {key : α → κ} {items : List α} {item : α} (h : item ∈ items) :
    ∃ winner ∈ items, Wins key items winner ∧ key winner = key item := by
  cases hfind : items.reverse.find? fun other => key other == key item with
  | none =>
    have hnone := List.find?_eq_none.mp hfind item (List.mem_reverse.mpr h)
    simp at hnone
  | some winner =>
    have hkey : key winner = key item := by simpa using List.find?_some hfind
    refine ⟨winner, List.mem_reverse.mp (List.mem_of_find?_eq_some hfind), ?_, hkey⟩
    rw [Wins, hkey]
    exact hfind

omit [LawfulBEq κ] in
theorem dictOf_map {β : Type*} (f : β → α) (key : α → κ) (value : α → υ) (items : List β) :
    dictOf key value (items.map f) = dictOf (fun x => key (f x)) (fun x => value (f x)) items :=
  List.foldl_map

omit [LawfulBEq κ] in
theorem wins_map {β : Type*} {f : β → α} (hf : Function.Injective f) {key : α → κ}
    {items : List β} {item : β} :
    Wins key (items.map f) (f item) ↔ Wins (fun x => key (f x)) items item := by
  unfold Wins
  rw [← List.map_reverse, List.find?_map]
  constructor
  · intro h
    obtain ⟨found, hfound, heq⟩ := Option.map_eq_some_iff.mp h
    obtain rfl := hf heq
    exact hfound
  · intro h
    exact Option.map_eq_some_iff.mpr ⟨item, h, rfl⟩

theorem idxOf_find_le [DecidableEq α] {items : List α} {p : α → Bool} {first other : α}
    (h : items.find? p = some first) (hp : p other = true) :
    items.idxOf first ≤ items.idxOf other := by
  induction items with
  | nil => cases h
  | cons item items ih =>
    by_cases hitem : p item = true
    · rw [List.find?_cons_of_pos hitem] at h
      rw [Option.some.inj h, List.idxOf_cons_self]
      exact Nat.zero_le _
    · rw [List.find?_cons_of_neg hitem] at h
      have hfirst : item ≠ first := fun heq => hitem (heq ▸ List.find?_some h)
      have hother : item ≠ other := fun heq => hitem (heq ▸ hp)
      rw [List.idxOf_cons_ne _ hfirst, List.idxOf_cons_ne _ hother]
      exact Nat.succ_le_succ (ih h)

theorem Wins.idxOf_le [DecidableEq α] {key : α → κ} {items : List α} {winner item : α}
    (h : Wins key items winner) (hkey : key winner = key item) :
    items.reverse.idxOf winner ≤ items.reverse.idxOf item :=
  idxOf_find_le h (by simpa using hkey.symm)

/-- Where no two winners of one key agree on the other, who wins one wins the other: the item that
wins the other key of `item` is later, and so is the one that wins its first key in turn. -/
theorem wins_of_injective [DecidableEq α] {key : α → κ} {key' : α → κ'} {items : List α}
    (hkey : ∀ x ∈ items, ∀ y ∈ items, Wins key items x → Wins key items y → key' x = key' y →
      x = y)
    (hkey' : ∀ x ∈ items, ∀ y ∈ items, Wins key' items x → Wins key' items y → key x = key y →
      x = y)
    {item : α} (hmem : item ∈ items) (h : Wins key items item) : Wins key' items item := by
  induction hidx : items.reverse.idxOf item using Nat.strongRecOn generalizing item with
  | ind idx ih =>
    have hother : ∃ x ∈ items, Wins key' items x ∧ key' x = key' item := exists_wins hmem
    obtain ⟨x, hx, hwinsx, hxitem⟩ := hother
    have hback : ∃ y ∈ items, Wins key items y ∧ key y = key x := exists_wins hx
    obtain ⟨y, hy, hwinsy, hyx⟩ := hback
    have hle := hwinsy.idxOf_le hyx
    have hle' := hwinsx.idxOf_le hxitem
    obtain hlt | hge := Nat.lt_or_ge (items.reverse.idxOf y) idx
    · have hy' := ih _ hlt hy hwinsy rfl
      have hxy := hkey' x hx y hy hwinsx hy' hyx.symm
      have hitem := hkey y hy item hmem hwinsy h (hxy ▸ hxitem)
      exact hitem ▸ hy'
    · have heq : items.reverse.idxOf x = items.reverse.idxOf item := by omega
      have hitem : x = item :=
        (List.idxOf_inj (List.mem_reverse.mpr hx)).mp heq
      exact hitem ▸ hwinsx

end DataQ.Winners
