import Mathlib.Logic.Function.Basic
import Mathlib.Tactic.Common

/-! # Locks held to the end of a transaction

`Locks κ ι` says for every key which session of `ι` holds its row lock; `Advisory ι` is one lock
that sessions take shared or exclusive. A session takes a lock when nobody else stands in the way
and keeps it until its transaction ends, which releases everything it holds. -/

namespace DataQ.Locking
set_option autoImplicit false

variable {κ ι : Type*}

abbrev Locks (κ ι : Type*) := κ → Option ι

def Locks.none : Locks κ ι := fun _ => Option.none

/-- Nobody but `i` holds the key. -/
abbrev Locks.Free (l : Locks κ ι) (i : ι) (k : κ) : Prop := l k = Option.none ∨ l k = some i

def Locks.take [DecidableEq κ] (l : Locks κ ι) (i : ι) (k : κ) : Locks κ ι :=
  Function.update l k (some i)

/-- Takes every key of a list. -/
def Locks.takeAll [DecidableEq κ] (l : Locks κ ι) (i : ι) (ks : List κ) : Locks κ ι :=
  fun k => if k ∈ ks then some i else l k

def Locks.release [DecidableEq ι] (l : Locks κ ι) (i : ι) : Locks κ ι :=
  fun k => if l k = some i then Option.none else l k

@[simp] theorem Locks.none_apply (k : κ) : (Locks.none : Locks κ ι) k = Option.none := rfl

@[simp] theorem Locks.take_self [DecidableEq κ] (l : Locks κ ι) (i : ι) (k : κ) :
    l.take i k k = some i := by
  simp [Locks.take]

theorem Locks.take_keeps [DecidableEq κ] {l : Locks κ ι} {i j : ι} {k k' : κ} (h : l.Free i k)
    (hj : l k' = some j) : l.take i k k' = some j := by
  by_cases hk : k' = k
  · subst hk
    have hij : j = i := by simpa [Locks.Free, hj] using h
    rw [hij, Locks.take_self]
  · simpa [Locks.take, hk] using hj

theorem Locks.take_other [DecidableEq κ] {l : Locks κ ι} {i j : ι} {k k' : κ} (hij : j ≠ i)
    (hj : l.take i k k' = some j) : l k' = some j := by
  by_cases hk : k' = k
  · subst hk
    rw [Locks.take_self] at hj
    exact absurd (Option.some.inj hj).symm hij
  · simpa [Locks.take, hk] using hj

theorem Locks.takeAll_mem [DecidableEq κ] (l : Locks κ ι) (i : ι) {ks : List κ} {k : κ}
    (hk : k ∈ ks) : l.takeAll i ks k = some i := if_pos hk

theorem Locks.takeAll_keeps [DecidableEq κ] {l : Locks κ ι} {i j : ι} {ks : List κ} {k : κ}
    (h : ∀ k ∈ ks, l.Free i k) (hj : l k = some j) : l.takeAll i ks k = some j := by
  unfold Locks.takeAll
  split
  · next hk =>
    have hij : j = i := by simpa [Locks.Free, hj] using h k hk
    rw [hij]
  · exact hj

theorem Locks.release_keeps [DecidableEq ι] {l : Locks κ ι} {i j : ι} {k : κ} (hij : j ≠ i)
    (hj : l k = some j) : l.release i k = some j := by
  simp [Locks.release, hj, hij]

theorem Locks.release_other [DecidableEq ι] {l : Locks κ ι} {i j : ι} {k : κ}
    (hj : l.release i k = some j) : l k = some j ∧ j ≠ i := by
  unfold Locks.release at hj
  split at hj
  · cases hj
  · next hne =>
    refine ⟨hj, fun h => hne ?_⟩
    rw [hj, h]

/-- A lock that is held exclusively by one session or shared by any number. -/
structure Advisory (ι : Type*) where
  exclusive : Option ι
  shared : List ι

def Advisory.none : Advisory ι := ⟨Option.none, []⟩

abbrev Advisory.FreeExclusive (a : Advisory ι) (i : ι) : Prop :=
  (a.exclusive = Option.none ∨ a.exclusive = some i) ∧ ∀ j ∈ a.shared, j = i

abbrev Advisory.FreeShared (a : Advisory ι) (i : ι) : Prop :=
  a.exclusive = Option.none ∨ a.exclusive = some i

def Advisory.takeExclusive (a : Advisory ι) (i : ι) : Advisory ι := { a with exclusive := some i }

def Advisory.takeShared (a : Advisory ι) (i : ι) : Advisory ι := { a with shared := i :: a.shared }

def Advisory.release [DecidableEq ι] (a : Advisory ι) (i : ι) : Advisory ι :=
  ⟨if a.exclusive = some i then Option.none else a.exclusive, a.shared.filter (· ≠ i)⟩

/-- Whoever holds the lock exclusively is its only holder. -/
def Advisory.Sound (a : Advisory ι) : Prop :=
  ∀ i, a.exclusive = some i → ∀ j ∈ a.shared, j = i

theorem Advisory.sound_none : (Advisory.none : Advisory ι).Sound := by
  intro i hi
  cases hi

theorem Advisory.Sound.takeExclusive {a : Advisory ι} {i : ι} (hfree : a.FreeExclusive i) :
    (a.takeExclusive i).Sound := by
  intro j hj k hk
  have hij : i = j := Option.some.inj hj
  rw [← hij]
  exact hfree.2 k hk

theorem Advisory.Sound.takeShared {a : Advisory ι} {i : ι} (h : a.Sound)
    (hfree : a.FreeShared i) : (a.takeShared i).Sound := by
  intro j hj k hk
  change a.exclusive = some j at hj
  rcases List.mem_cons.mp hk with rfl | hk
  · have hkj : j = k := by simpa [Advisory.FreeShared, hj] using hfree
    exact hkj.symm
  · exact h j hj k hk

theorem Advisory.Sound.release [DecidableEq ι] {a : Advisory ι} (h : a.Sound)
    (i : ι) : (a.release i).Sound := by
  intro j hj k hk
  simp only [Advisory.release] at hj hk
  split at hj
  · cases hj
  · exact h j hj k (List.mem_filter.mp hk).1

theorem Advisory.takeExclusive_keeps {a : Advisory ι} {i j : ι} (hfree : a.FreeExclusive i)
    (hj : a.exclusive = some j) : (a.takeExclusive i).exclusive = some j := by
  have hij : j = i := by simpa [hj] using hfree.1
  rw [hij]
  rfl

theorem Advisory.release_exclusive [DecidableEq ι] {a : Advisory ι} {i j : ι} (hij : j ≠ i)
    (hj : a.exclusive = some j) : (a.release i).exclusive = some j := by
  simp [Advisory.release, hj, hij]

theorem Advisory.release_shared [DecidableEq ι] {a : Advisory ι} {i j : ι} (hij : j ≠ i)
    (hj : j ∈ a.shared) :
    j ∈ (a.release i).shared := by
  simp [Advisory.release, hj, hij]

/-- What session `i` may do to an advisory lock. -/
inductive Advisory.Moves [DecidableEq ι] (i : ι) (a : Advisory ι) : Advisory ι → Prop
  | same : Moves i a a
  | exclusive : a.FreeExclusive i → Moves i a (a.takeExclusive i)
  | shared : a.FreeShared i → Moves i a (a.takeShared i)
  | release : Moves i a (a.release i)

section Moves
variable [DecidableEq ι] {a b : Advisory ι} {i j : ι}

theorem Advisory.Moves.sound (h : a.Moves i b) (hsound : a.Sound) : b.Sound := by
  cases h with
  | same => exact hsound
  | exclusive hfree => exact .takeExclusive hfree
  | shared hfree => exact hsound.takeShared hfree
  | release => exact hsound.release i

theorem Advisory.Moves.keeps_exclusive (h : a.Moves i b) (hij : j ≠ i)
    (hj : a.exclusive = some j) : b.exclusive = some j := by
  cases h with
  | same | shared => exact hj
  | exclusive hfree => exact Advisory.takeExclusive_keeps hfree hj
  | release => exact Advisory.release_exclusive hij hj

theorem Advisory.Moves.keeps_shared (h : a.Moves i b) (hij : j ≠ i) (hj : j ∈ a.shared) :
    j ∈ b.shared := by
  cases h with
  | same | exclusive => exact hj
  | shared => exact List.mem_cons_of_mem i hj
  | release => exact Advisory.release_shared hij hj

end Moves

end DataQ.Locking

/-! # A transaction with savepoints

What one open transaction has changed, as the list of its changes: those of released savepoints,
and those made since the last release, which are lost if the inner session closes first. The
transaction reads the committed store with all of them applied; committing publishes the released
ones, rolling back drops them all. -/

namespace DataQ.Savepoints
set_option autoImplicit false

variable {σ χ : Type*}

structure Changes (χ : Type*) where
  released : List χ
  pending : List χ

def Changes.none : Changes χ := ⟨[], []⟩

def Changes.write (c : Changes χ) (changes : List χ) : Changes χ :=
  { c with pending := c.pending ++ changes }

/-- The commit of a session that only releases its savepoint. -/
def Changes.release (c : Changes χ) : Changes χ := ⟨c.released ++ c.pending, []⟩

/-- The store as the transaction reads it. -/
def Changes.view (apply : σ → χ → σ) (c : Changes χ) (s : σ) : σ :=
  (c.released ++ c.pending).foldl apply s

/-- The store once the transaction has committed. -/
def Changes.publish (apply : σ → χ → σ) (c : Changes χ) (s : σ) : σ := c.released.foldl apply s

variable {apply : σ → χ → σ} {c : Changes χ} {s : σ} {changes : List χ}

@[simp] theorem view_none : (Changes.none : Changes χ).view apply s = s := rfl

@[simp] theorem view_write :
    (c.write changes).view apply s = changes.foldl apply (c.view apply s) := by
  simp only [Changes.view, Changes.write, ← List.append_assoc, List.foldl_append]

@[simp] theorem view_release : c.release.view apply s = c.view apply s := by
  simp only [Changes.view, Changes.release, List.append_nil]

theorem publish_eq_view (h : c.pending = []) : c.publish apply s = c.view apply s := by
  rw [Changes.publish, Changes.view, h, List.append_nil]

end DataQ.Savepoints
