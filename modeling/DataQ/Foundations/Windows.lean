import Mathlib.Data.List.Basic
import Mathlib.Logic.Function.Basic
import Mathlib.Tactic.Common

/-! # Fixed-window counters

Requests that each count up some keys, one after another, whether they are let through or not. As
many are let through under a bound on one key as the bound leaves over what is counted. -/

namespace DataQ.Windows
set_option autoImplicit false

variable {κ α β : Type*}

abbrev Counts (κ : Type*) := κ → ℕ

section Keys
variable [DecidableEq κ]

/-- Counts the keys up in their order, with the new count of each. -/
def incrAll (counts : Counts κ) : List κ → List ℕ × Counts κ
  | [] => ([], counts)
  | key :: keys =>
    let rest := incrAll (Function.update counts key (counts key + 1)) keys
    ((counts key + 1) :: rest.1, rest.2)

theorem le_incrAll (counts : Counts κ) (keys : List κ) (key : κ) :
    counts key ≤ (incrAll counts keys).2 key := by
  induction keys generalizing counts with
  | nil => exact Nat.le_refl _
  | cons k keys ih =>
    have hrest := ih (Function.update counts k (counts k + 1))
    by_cases hk : key = k
    · subst hk
      rw [Function.update_self] at hrest
      simp only [incrAll]
      omega
    · rwa [Function.update_of_ne hk] at hrest

/-- The count that is given back for a key has this request in it, and the ones to come have too. -/
theorem incrAll_getElem {counts : Counts κ} {keys : List κ} {key : κ} {i count : ℕ}
    (hkey : keys[i]? = some key) (hcount : (incrAll counts keys).1[i]? = some count) :
    counts key < count ∧ counts key < (incrAll counts keys).2 key := by
  induction keys generalizing counts i with
  | nil => cases hkey
  | cons k keys ih =>
    cases i with
    | zero =>
      obtain rfl := Option.some.inj hkey
      obtain rfl := Option.some.inj hcount
      have hrest := le_incrAll (Function.update counts k (counts k + 1)) keys k
      rw [Function.update_self] at hrest
      exact ⟨Nat.lt_succ_self _, hrest⟩
    | succ i =>
      have hrest := @ih (Function.update counts k (counts k + 1)) i hkey hcount
      by_cases hk : key = k
      · subst hk
        rw [Function.update_self] at hrest
        simp only [incrAll]
        omega
      · rwa [Function.update_of_ne hk] at hrest

theorem length_incrAll (counts : Counts κ) (keys : List κ) :
    (incrAll counts keys).1.length = keys.length := by
  induction keys generalizing counts with
  | nil => rfl
  | cons key keys ih => simp [incrAll, ih]

end Keys

/-- Requests one after another, each with its outcome. -/
def serve (handle : Counts κ → α → β × Counts κ) (counts : Counts κ) : List α → List (α × β)
  | [] => []
  | a :: as =>
    let served := handle counts a
    (a, served.1) :: serve handle served.2 as

/-- Where a request that wins counts the key up, and did so within the limit, no more win than the
limit leaves. -/
theorem countP_serve_le {handle : Counts κ → α → β × Counts κ} {won : α × β → Bool} {key : κ}
    {limit : ℕ} {requests : List α}
    (hmono : ∀ counts a, counts key ≤ (handle counts a).2 key)
    (hwon : ∀ counts, ∀ a ∈ requests, won (a, (handle counts a).1) = true →
      counts key < limit ∧ counts key < (handle counts a).2 key)
    (counts : Counts κ) : (serve handle counts requests).countP won ≤ limit - counts key := by
  induction requests generalizing counts with
  | nil => exact Nat.zero_le _
  | cons a requests ih =>
    have hrest := ih (fun counts b hb => hwon counts b (List.mem_cons_of_mem a hb))
      (handle counts a).2
    have hle := hmono counts a
    rw [serve, List.countP_cons]
    split
    · next hwin =>
      have hlt := hwon counts a List.mem_cons_self hwin
      omega
    · omega

end DataQ.Windows
