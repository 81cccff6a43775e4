import DataQ.Contracts.Drafts

/-! # Reconciling a suite with its contract

`services/contract_service.py`: the checks of a suite and the drafts of a new version of its
contract. The loops of `_reconcile` over its dict of clauses do at each clause what the policy
below says, as long as no clause is named twice. -/

namespace DataQ.Contracts
open Runs (CheckKind)
set_option autoImplicit false

inductive Origin
  | user | auto | suggestion | contract
  deriving DecidableEq, Repr

structure ContractRef (Digest : Type) where
  clause : ClauseRef
  fingerprint : Digest
  schedule : Option Text
  odcsId : Text
  disabledByContract : Bool
  deriving DecidableEq, Repr

structure Baseline where
  columns : List Column
  declared : Bool
  deriving DecidableEq, Repr

structure Check (Digest : Type) extends Rule where
  name : Text
  kind : CheckKind
  origin : Origin
  ordinal : Option ℕ
  dimension : Option Dimension
  enabled : Bool
  contractRef : Option (ContractRef Digest)
  baseline : Option Baseline
  deriving DecidableEq, Repr

variable {Digest : Type}

/-- The clause of a contract check, which is its key in `by_clause`. -/
def Check.clause? (c : Check Digest) : Option ClauseRef :=
  if c.origin = .contract then c.contractRef.map ContractRef.clause else none

variable (sha256 : Canonical → Digest) (odcsId : Text)

def fingerprint (rule : Rule) : Digest := sha256 rule.canonical

/-- `_dimension` of a draft. -/
def CheckDraft.storedDimension (d : CheckDraft) : Option Dimension :=
  if d.unclassified then none
  else d.dimension.or (deriveDimension d.expectationType d.kind)

/-- `_apply`, which leaves the kind as it is. -/
def apply (c : Check Digest) (d : CheckDraft) (setEnabled : Bool) : Check Digest :=
  { c with
    toRule := d.toRule
    name := d.name
    dimension := d.storedDimension
    enabled := if setEnabled then d.enabled else c.enabled
    contractRef := some
      { clause := d.ref
        fingerprint := fingerprint sha256 d.toRule
        schedule := d.schedule
        odcsId := odcsId
        disabledByContract := false } }

def newCheck (d : CheckDraft) (ordinal : ℕ) : Check Digest :=
  apply sha256 odcsId
    { toRule := d.toRule
      name := d.name
      kind := d.kind
      origin := .contract
      ordinal := some ordinal
      dimension := none
      enabled := true
      contractRef := none
      baseline := none } d true

def seedDeclaredBaseline (c : Check Digest) (d : CheckDraft) : Check Digest :=
  match d.kind, d.baseline, c.baseline with
  | .schemaDrift, some columns, none => { c with baseline := some ⟨columns, true⟩ }
  | _, _, _ => c

def refreshDeclaredBaseline (c : Check Digest) (d : CheckDraft) : Check Digest × Bool :=
  match d.kind, d.baseline with
  | .schemaDrift, some columns =>
    match c.baseline with
    | none => (seedDeclaredBaseline c d, true)
    | some row =>
      if !row.declared || row.columns = columns then (c, false)
      else ({ c with baseline := some ⟨columns, true⟩ }, true)
  | _, _ => (c, false)

/-- Switched off by an earlier import. -/
def Check.reopened (c : Check Digest) : Bool :=
  c.contractRef.any ContractRef.disabledByContract && !c.enabled

def Check.reopen (c : Check Digest) : Check Digest :=
  { c with
    enabled := true
    contractRef := c.contractRef.map fun ref => { ref with disabledByContract := false } }

def retire (c : Check Digest) : Check Digest :=
  { c with
    enabled := false
    contractRef := c.contractRef.map fun ref => { ref with disabledByContract := true } }

/-- The new checks of some drafts, numbered from `n`; a new suite numbers its checks from 1. -/
def creations (n : ℕ) (drafts : List CheckDraft) : List (Check Digest × CheckDraft) :=
  (drafts.zipIdx n).map fun entry => (newCheck sha256 odcsId entry.1 entry.2, entry.1)

def seeded (n : ℕ) (drafts : List CheckDraft) : List (Check Digest) :=
  (creations sha256 odcsId n drafts).map fun created => seedDeclaredBaseline created.1 created.2

/-! ## What the operations leave alone -/

@[simp] theorem clause?_newCheck (d : CheckDraft) (n : ℕ) :
    (newCheck sha256 odcsId d n).clause? = some d.ref := rfl

@[simp] theorem clause?_seedDeclaredBaseline (c : Check Digest) (d : CheckDraft) :
    (seedDeclaredBaseline c d).clause? = c.clause? := by
  unfold seedDeclaredBaseline
  split <;> rfl

@[simp] theorem clause?_retire (c : Check Digest) : (retire c).clause? = c.clause? := by
  unfold retire Check.clause?
  cases c.contractRef <;> rfl

@[simp] theorem clause?_reopen (c : Check Digest) : c.reopen.clause? = c.clause? := by
  unfold Check.reopen Check.clause?
  cases c.contractRef <;> rfl

@[simp] theorem clause?_refreshDeclaredBaseline (c : Check Digest) (d : CheckDraft) :
    (refreshDeclaredBaseline c d).1.clause? = c.clause? := by
  unfold refreshDeclaredBaseline
  split
  · split
    · exact clause?_seedDeclaredBaseline c d
    · split <;> rfl
  · rfl

theorem clause?_apply {c : Check Digest} {d : CheckDraft} (h : c.clause? = some d.ref)
    (setEnabled : Bool) : (apply sha256 odcsId c d setEnabled).clause? = c.clause? := by
  have hcontract : c.origin = .contract := by
    by_contra hne
    rw [Check.clause?, if_neg hne] at h
    cases h
  rw [h, Check.clause?]
  exact if_pos hcontract

/-! ## The loops -/

variable [DecidableEq Digest]

/-- The stored fingerprint is the check's own. -/
def Check.unedited (c : Check Digest) : Bool :=
  c.contractRef.any fun ref => ref.fingerprint = fingerprint sha256 c.toRule

/-- What the loop over the drafts does to the check of a draft's clause, and whether that is a
change. -/
def revise (c : Check Digest) (d : CheckDraft) : Check Digest × Bool :=
  let unedited := c.unedited sha256
  let stale := unedited &&
    c.contractRef.any fun ref => ref.fingerprint ≠ fingerprint sha256 d.toRule
  let applied := if stale then apply sha256 odcsId c d false else c
  let opened := if c.reopened then applied.reopen else applied
  let refreshed := if unedited then refreshDeclaredBaseline opened d else (opened, false)
  (refreshed.1, stale || c.reopened || refreshed.2)

/-- `by_clause`: the place of the last contract check of each clause. -/
def byClause (checks : List (Check Digest)) : List (ClauseRef × ℕ) :=
  places (checks.map Check.clause?)

/-- `_ReconcileCounts`. -/
structure Counts where
  added : ℕ
  updated : ℕ
  disabled : ℕ
  deriving DecidableEq, Repr

/-- The locals of `_reconcile`. -/
structure Progress (Digest : Type) where
  checks : List (Check Digest)
  created : List (Check Digest × CheckDraft)
  nextOrdinal : ℕ
  seen : List ClauseRef
  added : ℕ
  updated : ℕ

/-- One pass of the loop over the drafts. -/
def visit (clauses : List (ClauseRef × ℕ)) (p : Progress Digest) (d : CheckDraft) :
    Progress Digest :=
  let p := { p with seen := d.ref :: p.seen }
  match (clauses.lookup d.ref).bind fun i => (p.checks[i]?).map (i, ·) with
  | none =>
    { p with
      created := p.created ++ [(newCheck sha256 odcsId d p.nextOrdinal, d)]
      nextOrdinal := p.nextOrdinal + 1
      added := p.added + 1 }
  | some (i, existing) =>
    { p with
      checks := p.checks.set i (revise sha256 odcsId existing d).1
      updated := if (revise sha256 odcsId existing d).2 then p.updated + 1 else p.updated }

/-- One pass of the loop over `by_clause`. -/
def retireUnseen (seen : List ClauseRef) (p : List (Check Digest) × ℕ) (entry : ClauseRef × ℕ) :
    List (Check Digest) × ℕ :=
  match p.1[entry.2]? with
  | none => p
  | some c =>
    if entry.1 ∉ seen ∧ c.enabled = true then (p.1.set entry.2 (retire c), p.2 + 1) else p

def nextOrdinal (checks : List (Check Digest)) : ℕ :=
  (checks.map fun c => c.ordinal.getD 0).foldl max 0 + 1

/-- `_reconcile`, with the baselines that the import seeds for the new checks. -/
def reconcile (checks : List (Check Digest)) (drafts : List CheckDraft) :
    List (Check Digest) × Counts :=
  let clauses := byClause checks
  let p := drafts.foldl (visit sha256 odcsId clauses)
    ⟨checks, [], nextOrdinal checks, [], 0, 0⟩
  let retired := clauses.foldl (retireUnseen p.seen) (p.checks, 0)
  (retired.1 ++ p.created.map fun created => seedDeclaredBaseline created.1 created.2,
    ⟨p.added, p.updated, retired.2⟩)

theorem clause?_revise {c : Check Digest} {d : CheckDraft} (h : c.clause? = some d.ref) :
    (revise sha256 odcsId c d).1.clause? = c.clause? := by
  have happlied : ∀ stale : Bool,
      (if stale then apply sha256 odcsId c d false else c).clause? = c.clause? := by
    intro stale
    cases stale with
    | false => rfl
    | true => exact clause?_apply sha256 odcsId h false
  have hopened : ∀ (opens : Bool) (a : Check Digest),
      (if opens then a.reopen else a).clause? = a.clause? := by
    intro opens a
    cases opens with
    | false => rfl
    | true => exact clause?_reopen a
  have hrefreshed : ∀ (unedited : Bool) (a : Check Digest),
      (if unedited then refreshDeclaredBaseline a d else (a, false)).1.clause? = a.clause? := by
    intro unedited a
    cases unedited with
    | false => rfl
    | true => exact clause?_refreshDeclaredBaseline a d
  unfold revise
  simp only [hrefreshed, hopened, happlied]

end DataQ.Contracts
