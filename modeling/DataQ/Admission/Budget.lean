import DataQ.Foundations.Transition
import Mathlib.Algebra.GroupWithZero.Nat

/-! # The memory budget of a worker

`core/memory_budget.py` and the part of `run_admission` around it. The store keeps the leases in a
sorted set and the amounts in a hash. The reserve script touches both in one command; a release is
two commands, either of which may fail, or be carried out and its reply lost. Both keys have one
time to live, by the clock of the store. -/

namespace DataQ.Admission
open DataQ.Interleaving
set_option autoImplicit false

variable {κ : Type*} [DecidableEq κ]

/-- The sorted set with the end of each lease, the hash with each amount, and when both keys go. -/
structure Store (κ : Type*) where
  leases : List (κ × ℕ)
  amounts : List (κ × ℕ)
  clock : ℕ
  keysExpireAt : Option ℕ

/-- `_KEY_TTL_SLACK_S`. -/
def keyTtlSlack : ℕ := 60

def Store.empty : Store κ := ⟨[], [], 0, none⟩

/-- `ZREM`. -/
def Store.zrem (s : Store κ) (key : κ) : Store κ :=
  { s with leases := s.leases.filter fun p => p.1 ≠ key }

/-- `HDEL`. -/
def Store.hdel (s : Store κ) (key : κ) : Store κ :=
  { s with amounts := s.amounts.filter fun p => p.1 ≠ key }

/-- The eviction of the expired leases, with their amounts. -/
def Store.evict (s : Store κ) (now : ℕ) : Store κ :=
  let expired := (s.leases.filter fun p => p.2 ≤ now).map Prod.fst
  { s with
    leases := s.leases.filter fun p => p.1 ∉ expired
    amounts := s.amounts.filter fun p => p.1 ∉ expired }

def Store.used (s : Store κ) : ℕ := (s.amounts.map Prod.snd).sum

/-- `_RESERVE_LUA`: whether the reservation is granted, and the sum it returns. -/
def Store.reserve (s : Store κ) (now : ℕ) (member : κ) (amount budget lease : ℕ) :
    Store κ × Bool × ℕ :=
  let s := ((s.evict now).zrem member).hdel member
  if 0 < s.used ∧ budget < s.used + amount then (s, false, s.used)
  else
    ({ s with
      leases := (member, now + lease) :: s.leases
      amounts := (member, amount) :: s.amounts
      keysExpireAt := some (s.clock + (lease + keyTtlSlack)) }, true, s.used + amount)

/-- A key that is expired is gone. -/
def Store.pass (s : Store κ) : Store κ :=
  if s.keysExpireAt.any (· ≤ s.clock + 1) then ⟨[], [], s.clock + 1, none⟩
  else { s with clock := s.clock + 1 }

/-- What becomes of a command: it is carried out and answered, carried out and the answer lost, or
not carried out. -/
inductive Fate
  | done | lost | failed
  deriving DecidableEq, Repr

structure MemoryEstimate where
  bytes : ℕ
  exclusive : Bool
  deriving DecidableEq, Repr

/-- `usedBytes` is `none` when the store could not be reached. -/
structure Verdict where
  admitted : Bool
  usedBytes : Option ℕ
  degraded : Bool
  deriving DecidableEq, Repr

/-- `MemoryBudget.reserve`: an exception is admitted fail-open. -/
def reserve (budget lease : ℕ) (s : Store κ) (now : ℕ) (key : κ) (amount : ℕ) :
    Fate → Store κ × Verdict
  | .done =>
    let r := s.reserve now key amount budget lease
    (r.1, ⟨r.2.1, some r.2.2, false⟩)
  | .lost => ((s.reserve now key amount budget lease).1, ⟨true, none, true⟩)
  | .failed => (s, ⟨true, none, true⟩)

structure AdmissionDecision where
  defer : Bool
  timedOut : Bool
  deriving DecidableEq, Repr

/-- `admit_run`, where admission control is switched on. -/
def admitRun (budget lease : ℕ) (s : Store κ) (runId : κ) (estimate : Option MemoryEstimate)
    (waitedOut : Bool) (now : ℕ) (fate : Fate) : Store κ × AdmissionDecision :=
  match estimate with
  | none => (s, ⟨false, false⟩)
  | some estimate =>
    let amount := if estimate.exclusive then budget else estimate.bytes
    let r := reserve budget lease s now runId amount fate
    (r.1,
      if r.2.admitted then ⟨false, false⟩
      else if waitedOut then ⟨false, true⟩
      else ⟨true, false⟩)

/-- Where a process of the worker stands: its next command is a `ZREM` or an `HDEL` of a release. -/
inductive Pc (κ : Type*)
  | idle
  | zremming (key : κ)
  | hdelling (key : κ)
  deriving DecidableEq, Repr

inductive Act (κ : Type*)
  | admitRun (runId : κ) (estimate : Option MemoryEstimate) (waitedOut : Bool) (now : ℕ) (fate : Fate)
  | release (runId : κ)
  | command (fate : Fate)
  | die
  | pass
  deriving DecidableEq, Repr

/-- One command of a process. `release` stops at the first exception. -/
def act (budget lease : ℕ) (a : Act κ) (s : Store κ) (pc : Pc κ) : Option (Store κ × Pc κ) :=
  match a, pc with
  | .admitRun runId estimate waitedOut now fate, .idle =>
    some ((admitRun budget lease s runId estimate waitedOut now fate).1, .idle)
  | .release runId, .idle => some (s, .zremming runId)
  | .command .done, .zremming key => some (s.zrem key, .hdelling key)
  | .command .lost, .zremming key => some (s.zrem key, .idle)
  | .command .failed, .zremming _ => some (s, .idle)
  | .command .done, .hdelling key => some (s.hdel key, .idle)
  | .command .lost, .hdelling key => some (s.hdel key, .idle)
  | .command .failed, .hdelling _ => some (s, .idle)
  | .die, _ => some (s, .idle)
  | .pass, pc => some (s.pass, pc)
  | _, _ => none

variable {ι : Type*} [DecidableEq ι]

abbrev World (ι κ : Type*) := Config ι (Store κ) (Pc κ)

def step (budget lease : ℕ) (c : World ι κ) (e : ι × Act κ) : Option (World ι κ) :=
  Interleaving.step (act budget lease) c e

omit [DecidableEq κ] [DecidableEq ι] in
def World.initial : World ι κ := ⟨.empty, fun _ => .idle⟩

end DataQ.Admission
