import Mathlib.Data.List.Nodup
import Mathlib.Tactic.Common

/-! # Reconciling what is held with what is wanted

Entries are held under keys and wanted under keys. A policy says what becomes of one key; a pass
over lists reconciles them when it does so at each key and no key is held or wanted twice. -/

namespace DataQ.Reconciliation
set_option autoImplicit false

variable {κ σ δ : Type*}

structure Policy (σ δ : Type*) where
  Creates : δ → σ → Prop
  revise : σ → δ → σ
  retire : σ → σ

/-- What becomes of one key. -/
inductive Policy.Entry (P : Policy σ δ) : Option σ → Option δ → Option σ → Prop
  | absent : P.Entry none none none
  | created {d : δ} {c : σ} (h : P.Creates d c) : P.Entry none (some d) (some c)
  | revised (c : σ) (d : δ) : P.Entry (some c) (some d) (some (P.revise c d))
  | retired (c : σ) : P.Entry (some c) none (some (P.retire c))

def Policy.Reconciles (P : Policy σ δ) (held : κ → Option σ) (wanted : κ → Option δ)
    (after : κ → Option σ) : Prop :=
  ∀ k, P.Entry (held k) (wanted k) (after k)

/-- What holds of all that a policy creates, revises and retires holds of all that is held. -/
theorem Policy.Reconciles.forall_held {P : Policy σ δ} {held after : κ → Option σ}
    {wanted : κ → Option δ} (h : P.Reconciles held wanted after) {I : κ → σ → Prop}
    (hcreate : ∀ k d c, wanted k = some d → P.Creates d c → I k c)
    (hrevise : ∀ k c d, held k = some c → wanted k = some d → I k (P.revise c d))
    (hretire : ∀ k c, held k = some c → wanted k = none → I k (P.retire c)) {k : κ} {c : σ}
    (hc : after k = some c) : I k c := by
  have hk := h k
  rw [hc] at hk
  generalize hh : held k = before at hk
  generalize hw : wanted k = want at hk
  cases hk with
  | created hnew => exact hcreate k _ c hw hnew
  | revised old d => exact hrevise k old d hh hw
  | retired old => exact hretire k old hh hw

/-! ## Lists of keyed entries -/

section Lists

variable (key : σ → Option κ)

/-- No key is there twice. -/
def KeysUnique (entries : List σ) : Prop := (entries.filterMap key).Nodup

variable {key}

theorem KeysUnique.tail {c : σ} {entries : List σ} (h : KeysUnique key (c :: entries)) :
    KeysUnique key entries := by
  unfold KeysUnique at h ⊢
  rw [List.filterMap_cons] at h
  cases hk : key c with
  | none => rwa [hk] at h
  | some k =>
    rw [hk] at h
    exact h.of_cons

theorem KeysUnique.head_notMem {c : σ} {entries : List σ} {k : κ} (h : KeysUnique key (c :: entries))
    (hk : key c = some k) : ∀ e ∈ entries, key e ≠ some k := by
  unfold KeysUnique at h
  rw [List.filterMap_cons, hk] at h
  intro e he hkey
  exact h.notMem (List.mem_filterMap.mpr ⟨e, he, hkey⟩)

theorem keysUnique_map {entries : List σ} {f : σ → σ} (hf : ∀ c ∈ entries, key (f c) = key c) :
    KeysUnique key (entries.map f) ↔ KeysUnique key entries := by
  unfold KeysUnique
  have hsame : entries.filterMap (key ∘ f) = entries.filterMap key := List.filterMap_congr hf
  rw [List.filterMap_map, hsame]

theorem keysUnique_append {entries more : List σ} :
    KeysUnique key (entries ++ more) ↔
      KeysUnique key entries ∧ KeysUnique key more ∧
        ∀ k, (∃ c ∈ entries, key c = some k) → ∀ c ∈ more, key c ≠ some k := by
  unfold KeysUnique
  rw [List.filterMap_append, List.nodup_append]
  constructor
  · rintro ⟨h, hm, hd⟩
    refine ⟨h, hm, fun k ⟨c, hc, hk⟩ e he hke => ?_⟩
    exact hd k (List.mem_filterMap.mpr ⟨c, hc, hk⟩) k (List.mem_filterMap.mpr ⟨e, he, hke⟩) rfl
  · rintro ⟨h, hm, hd⟩
    refine ⟨h, hm, fun a ha b hb hab => ?_⟩
    obtain ⟨c, hc, hk⟩ := List.mem_filterMap.mp ha
    obtain ⟨e, he, hke⟩ := List.mem_filterMap.mp hb
    exact hd a ⟨c, hc, hk⟩ e he (hab ▸ hke)

variable [DecidableEq κ]

variable (key) in
/-- The first entry under a key. -/
def keyed (entries : List σ) (k : κ) : Option σ := entries.find? fun c => key c = some k

theorem key_of_keyed {entries : List σ} {k : κ} {c : σ} (h : keyed key entries k = some c) :
    c ∈ entries ∧ key c = some k :=
  ⟨List.mem_of_find?_eq_some h, by simpa using List.find?_some h⟩

theorem keyed_eq_none {entries : List σ} {k : κ} :
    keyed key entries k = none ↔ ∀ c ∈ entries, key c ≠ some k := by
  simp [keyed, List.find?_eq_none]

theorem keyed_eq_some {entries : List σ} (h : KeysUnique key entries) {k : κ} {c : σ} :
    keyed key entries k = some c ↔ c ∈ entries ∧ key c = some k := by
  refine ⟨key_of_keyed, ?_⟩
  induction entries with
  | nil => exact fun ⟨hmem, _⟩ => absurd hmem List.not_mem_nil
  | cons e entries ih =>
    rintro ⟨hmem, hk⟩
    rcases List.mem_cons.mp hmem with rfl | hmem
    · simp [keyed, hk]
    · have hne : key e ≠ some k := fun he => h.head_notMem he c hmem hk
      rw [keyed, List.find?_cons_of_neg (by simpa using hne)]
      exact ih h.tail ⟨hmem, hk⟩

theorem keyed_map {entries : List σ} {f : σ → σ} (hf : ∀ c ∈ entries, key (f c) = key c) (k : κ) :
    keyed key (entries.map f) k = (keyed key entries k).map f := by
  induction entries with
  | nil => rfl
  | cons e entries ih =>
    have htail := ih fun c hc => hf c (List.mem_cons_of_mem _ hc)
    have hhead := hf e List.mem_cons_self
    simp only [keyed] at htail ⊢
    rw [List.map_cons, List.find?_cons, List.find?_cons, hhead, htail]
    by_cases h : key e = some k <;> simp [h]

theorem keyed_append (entries more : List σ) (k : κ) :
    keyed key (entries ++ more) k = (keyed key entries k).or (keyed key more k) := by
  simp [keyed]

theorem countP_eq_one_of_keyed {entries : List σ} (h : KeysUnique key entries) {k : κ} {c : σ}
    (hc : keyed key entries k = some c) {p : σ → Bool} (hp : p c = true)
    (honly : ∀ e, p e = true → key e = some k) : entries.countP p = 1 := by
  induction entries with
  | nil => cases hc
  | cons e entries ih =>
    by_cases hk : key e = some k
    · have hce : e = c := by simpa [keyed, hk] using hc
      have hrest : entries.countP p = 0 :=
        List.countP_eq_zero.mpr fun a ha hpa => h.head_notMem hk a ha (honly a hpa)
      rw [List.countP_cons_of_pos (by rw [hce]; exact hp), hrest]
    · have hno : ¬ p e = true := fun hpe => hk (honly e hpe)
      rw [keyed, List.find?_cons_of_neg (by simpa using hk)] at hc
      rw [List.countP_cons_of_neg hno]
      exact ih h.tail hc

theorem set_eq_map {entries : List σ} (h : KeysUnique key entries) {i : ℕ} {c : σ} {k : κ}
    (hi : entries[i]? = some c) (hk : key c = some k) (f : σ → σ) :
    entries.set i (f c) = entries.map fun e => if key e = some k then f e else e := by
  induction entries generalizing i with
  | nil => cases hi
  | cons e entries ih =>
    cases i with
    | zero =>
      obtain rfl : e = c := by simpa using hi
      have hrest : entries.map (fun e => if key e = some k then f e else e) = entries := by
        rw [List.map_congr_left fun a ha => if_neg (h.head_notMem hk a ha), List.map_id']
      rw [List.set_cons_zero, List.map_cons, if_pos hk, hrest]
    | succ i =>
      have hmem : c ∈ entries := List.mem_of_getElem? (by simpa using hi)
      have hne : key e ≠ some k := fun he => h.head_notMem he c hmem hk
      rw [List.set_cons_succ, List.map_cons, if_neg hne, ih h.tail (by simpa using hi)]

/-- A pass that changes the held entries in place and appends new ones reconciles. -/
theorem reconciles_of_lists {P : Policy σ δ} {held created : List σ} {wanted : κ → Option δ}
    {f : σ → σ} (hkey : ∀ c ∈ held, key (f c) = key c)
    (hrevise : ∀ c ∈ held, ∀ k d, key c = some k → wanted k = some d → f c = P.revise c d)
    (hretire : ∀ c ∈ held, ∀ k, key c = some k → wanted k = none → f c = P.retire c)
    (hcreated : ∀ k, keyed key held k = none →
      P.Entry none (wanted k) (keyed key created k)) :
    P.Reconciles (keyed key held) wanted (keyed key (held.map f ++ created)) := by
  intro k
  rw [keyed_append, keyed_map hkey]
  cases hheld : keyed key held k with
  | none => simpa using hcreated k hheld
  | some c =>
    obtain ⟨hmem, hk⟩ := key_of_keyed hheld
    rw [Option.map_some, Option.some_or]
    cases hwant : wanted k with
    | none =>
      rw [hretire c hmem k hk hwant]
      exact .retired c
    | some d =>
      rw [hrevise c hmem k d hk hwant]
      exact .revised c d

end Lists
end DataQ.Reconciliation
