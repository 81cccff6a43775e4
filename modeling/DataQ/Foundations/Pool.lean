import Mathlib.Algebra.BigOperators.Group.List.Basic

/-! # A pool of tasks over one shared store

Tasks come in any number and stay listed in the order in which they came. A statement reads the
store and the stage of its task and leaves both changed, atomically; between two statements of one
task any statements of the others may come. -/

namespace DataQ
set_option autoImplicit false

variable {σ ℓ α M : Type*}

/-- The shared store and the stage of every task. -/
structure Pool (σ ℓ : Type*) where
  store : σ
  tasks : List ℓ

namespace Pool

/-- A task comes. -/
def add (p : Pool σ ℓ) (stage : ℓ) : Pool σ ℓ := { p with tasks := p.tasks ++ [stage] }

/-- One statement of the task at a place. -/
def perform (act : α → σ → ℓ → Option (σ × ℓ)) (p : Pool σ ℓ) (i : ℕ) (a : α) :
    Option (Pool σ ℓ) :=
  p.tasks[i]?.bind fun stage =>
    (act a p.store stage).map fun r => ⟨r.1, p.tasks.set i r.2⟩

theorem perform_eq_some {act : α → σ → ℓ → Option (σ × ℓ)} {p q : Pool σ ℓ} {i : ℕ} {a : α} :
    perform act p i a = some q ↔ ∃ stage r, p.tasks[i]? = some stage ∧
      act a p.store stage = some r ∧ q = ⟨r.1, p.tasks.set i r.2⟩ := by
  simp only [perform, Option.bind_eq_some_iff, Option.map_eq_some_iff]
  constructor
  · rintro ⟨stage, hstage, r, hr, rfl⟩
    exact ⟨stage, r, hstage, hr, rfl⟩
  · rintro ⟨stage, r, hstage, hr, rfl⟩
    exact ⟨stage, hstage, r, hr, rfl⟩

/-! ## What the tasks hold together -/

section Tally
variable [AddCommGroup M] (f : ℓ → M)

def tally (tasks : List ℓ) : M := (tasks.map f).sum

@[simp] theorem tally_nil : tally f [] = 0 := rfl

theorem tally_append (tasks more : List ℓ) :
    tally f (tasks ++ more) = tally f tasks + tally f more := by
  rw [tally, List.map_append, List.sum_append]
  rfl

@[simp] theorem tally_concat (tasks : List ℓ) (stage : ℓ) :
    tally f (tasks ++ [stage]) = tally f tasks + f stage := by
  rw [tally_append]
  simp [tally]

theorem tally_set {tasks : List ℓ} {i : ℕ} {stage : ℓ} (h : tasks[i]? = some stage)
    (stage' : ℓ) : tally f (tasks.set i stage') = tally f tasks - f stage + f stage' := by
  obtain ⟨hi, rfl⟩ := List.getElem?_eq_some_iff.mp h
  have hi' : i < (tasks.map f).length := by rwa [List.length_map]
  rw [tally, List.map_set, List.sum_set', dif_pos hi', List.getElem_map, ← add_assoc,
    ← sub_eq_add_neg]
  rfl

theorem tally_eq_zero {tasks : List ℓ} (h : ∀ stage ∈ tasks, f stage = 0) : tally f tasks = 0 := by
  induction tasks with
  | nil => rfl
  | cons stage tasks ih =>
    have htasks := ih fun s hs => h s (List.mem_cons_of_mem stage hs)
    rw [tally, List.map_cons, List.sum_cons, h stage List.mem_cons_self, zero_add]
    exact htasks

/-- Where one task holds something, all hold what it holds. -/
theorem tally_eq_of_alone {tasks : List ℓ} {i : ℕ} {stage : ℓ} (h : tasks[i]? = some stage)
    (halone : ∀ j other, tasks[j]? = some other → j ≠ i → f other = 0) :
    tally f tasks = f stage := by
  induction tasks generalizing i with
  | nil => simp at h
  | cons first tasks ih =>
    rw [tally, List.map_cons, List.sum_cons]
    cases i with
    | zero =>
      have hfirst : first = stage := by simpa using h
      have hrest : tally f tasks = 0 := by
        apply tally_eq_zero
        intro other hother
        obtain ⟨j, hj⟩ := List.mem_iff_getElem?.mp hother
        exact halone (j + 1) other (by simpa using hj) (by omega)
      show f first + tally f tasks = f stage
      rw [hrest, hfirst, add_zero]
    | succ i =>
      have hzero : f first = 0 := halone 0 first rfl (by omega)
      have hrest : tally f tasks = f stage :=
        ih (by simpa using h) fun j other hj hne =>
          halone (j + 1) other (by simpa using hj) (by omega)
      show f first + tally f tasks = f stage
      rw [hrest, hzero, zero_add]

end Tally

end Pool

end DataQ
