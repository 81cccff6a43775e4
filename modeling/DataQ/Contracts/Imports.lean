import DataQ.Contracts.Agreement
import DataQ.Contracts.Translate
import DataQ.Foundations.Transition

/-! # Imports into a suite

`services/contract_service.py`: `import_contract` as one suite sees it, from the import that creates
the suite on, and the checks that people add by hand in between. An import that is refused changes
nothing and is no event. -/

namespace DataQ.Contracts
open Runs (CheckKind)
open Reconciliation Transition
set_option autoImplicit false

/-- What the import takes from the database, the hash and the vendored schema: what a stored config
or threshold is read back as, SHA-256 of a canonical dump, and which documents are valid. -/
structure Importer (Digest : Type) where
  tools : Tools
  connectionType : Text
  valid : Json → Bool
  sha256 : Canonical → Digest
  readConfig : Fields → Fields
  readThreshold : Decimal → Decimal
  readConfig_twice : ∀ config, readConfig (readConfig config) = readConfig config
  readThreshold_twice : ∀ t, readThreshold (readThreshold t) = readThreshold t

/-- What `_validate_check` reads of a draft. -/
structure CheckDocument extends Rule where
  name : Text
  kind : CheckKind
  enabled : Bool
  dimension : Option Dimension
  deriving DecidableEq, Repr

def CheckDraft.document (d : CheckDraft) : CheckDocument where
  toRule := d.toRule
  name := d.name
  kind := d.kind
  enabled := d.enabled
  dimension := d.storedDimension

/-- A document to import, and the message with which the validators refuse a check then. -/
structure Import where
  contract : Json
  refusal : CheckDocument → Option Text

def acceptedDrafts (refusal : CheckDocument → Option Text) (drafts : List CheckDraft) :
    List CheckDraft × List Unmapped :=
  (drafts.filter fun d => (refusal d.document).isNone,
    drafts.filterMap fun d => (refusal d.document).map fun message =>
      { object := some d.ref.object
        property := d.ref.property
        ruleId := d.ref.ruleId
        field := d.ref.field
        reason := "DataQ refused the check this clause maps to: ".toList ++ message
        clause := [("expectation_type".toList, .str d.expectationType)] })

structure Suite (Digest : Type) where
  odcsId : Text
  contractObject : Option Text
  checks : List (Check Digest)
  deriving DecidableEq, Repr

variable {Digest : Type} [DecidableEq Digest] (imp : Importer Digest) (object : Text)

def Importer.read (r : Rule) : Rule :=
  { r with
    config := imp.readConfig r.config
    thresholds :=
      ⟨r.thresholds.warn.map imp.readThreshold, r.thresholds.fail.map imp.readThreshold,
        r.thresholds.critical.map imp.readThreshold⟩ }

/-- A check as it is read back. -/
def Importer.stored (c : Check Digest) : Check Digest := { c with toRule := imp.read c.toRule }

/-- The drafts of the object that the validators accept, where the document has the object. -/
def Importer.drafts? (i : Import) : Option (List CheckDraft) :=
  ((translate imp.tools i.contract imp.connectionType id).objects.find? (·.name = object)).map
    fun o => (acceptedDrafts i.refusal o.checks).1

/-- `str(spec["id"])`. -/
def Importer.odcsId (i : Import) : Text := imp.tools.py.str (i.contract.get "id".toList)

/-- A suite whose object the document no longer has. -/
def retireAll (checks : List (Check Digest)) : List (Check Digest) × Counts :=
  (checks.map fun c => if c.origin = .contract ∧ c.enabled = true then retire c else c,
    ⟨0, 0, checks.countP fun c => c.origin = .contract ∧ c.enabled = true⟩)

/-- `import_contract` for the suite of one object; `none` where the import does not reach it. -/
def importContract (i : Import) : Option (Suite Digest) → Option (Suite Digest × Counts)
  | none =>
    if !imp.valid i.contract then none
    else
      (imp.drafts? object i).map fun drafts =>
        (⟨imp.odcsId i, some object,
          (seeded imp.sha256 (imp.odcsId i) 1 drafts).map imp.stored⟩, ⟨drafts.length, 0, 0⟩)
  | some s =>
    if !imp.valid i.contract || s.odcsId ≠ imp.odcsId i || s.contractObject ≠ some object then none
    else
      match imp.drafts? object i with
      | none =>
        let retired := retireAll s.checks
        some ({ s with contractObject := none, checks := retired.1.map imp.stored }, retired.2)
      | some drafts =>
        let reconciled := reconcile imp.sha256 s.odcsId s.checks drafts
        some ({ s with checks := reconciled.1.map imp.stored }, reconciled.2)

/-- What happens to a suite: an import, or a check that a person adds. -/
inductive Event (Digest : Type)
  | imports (i : Import)
  | adds (c : Check Digest)

def step (s : Option (Suite Digest)) : Event Digest → Option (Option (Suite Digest))
  | .imports i => (importContract imp object i s).map fun out => some out.1
  | .adds c =>
    if c.origin = .contract then none
    else s.map fun suite => some { suite with checks := suite.checks ++ [c] }

/-! ## What an import is to leave -/

/-- The check is the draft's: it is on and equal to it in kind, type, engine, config, thresholds
and clause. -/
def Enforces (d : CheckDraft) (c : Check Digest) : Prop :=
  c.enabled = true ∧ c.clause? = some d.ref ∧ c.kind = d.kind ∧
    c.toRule.canonical = d.toRule.canonical

instance (d : CheckDraft) (c : Check Digest) : Decidable (Enforces d c) :=
  inferInstanceAs (Decidable (_ ∧ _))

/-- The suite has the checks that the document asks for, and importing it again changes none. -/
structure Asked (i : Import) (s : Suite Digest) : Prop where
  each : ∀ d ∈ (imp.drafts? object i).getD [], d.enabled = true →
    s.checks.countP (fun c => Enforces d c) = 1
  only : ∀ c ∈ s.checks, c.origin = .contract → c.enabled = true →
    ∃ d ∈ (imp.drafts? object i).getD [], Enforces d c
  again : ∀ out, importContract imp object i (some s) = some out → out.2 = ⟨0, 0, 0⟩
  imports : (imp.drafts? object i).isSome → (importContract imp object i (some s)).isSome

/-! ## When it does -/

/-- The rule is read back as it was written, up to the order of keys. -/
def Importer.ReadsBack (r : Rule) : Prop := (imp.read r).canonical = r.canonical

instance (r : Rule) : Decidable (imp.ReadsBack r) := inferInstanceAs (Decidable (_ = _))

/-- On, or switched off by an import. -/
def Check.held (c : Check Digest) : Bool := c.enabled || c.reopened

/-- The check of a clause can become its draft's: an import may switch it on if the draft is on, and
it is of the draft's kind if it is on then. -/
def Fits (d : CheckDraft) (c : Check Digest) : Prop :=
  (d.enabled = true → c.held = true) ∧ (c.held = true → c.kind = d.kind)

instance (d : CheckDraft) (c : Check Digest) : Decidable (Fits d c) :=
  inferInstanceAs (Decidable (_ ∧ _))

def checksOf : Option (Suite Digest) → List (Check Digest)
  | none => []
  | some s => s.checks

/-- No two accepted drafts of the document share a clause, each is read back as it is written, and
the check of its clause, where the suite has one, fits it. -/
def Reconcilable (s : Option (Suite Digest)) (drafts : List CheckDraft) : Prop :=
  (drafts.map CheckDraft.ref).Nodup ∧
    ∀ d ∈ drafts, imp.ReadsBack d.toRule ∧
      ∀ c ∈ checksOf s, c.clause? = some d.ref → Fits d c

instance (s : Option (Suite Digest)) (drafts : List CheckDraft) :
    Decidable (Reconcilable imp s drafts) :=
  inferInstanceAs (Decidable (_ ∧ _))

def Sound (s : Option (Suite Digest)) : Event Digest → Prop
  | .imports i => Reconcilable imp s ((imp.drafts? object i).getD [])
  | .adds _ => True

instance (s : Option (Suite Digest)) : ∀ e : Event Digest, Decidable (Sound imp object s e)
  | .imports _ => inferInstanceAs (Decidable (Reconcilable _ _ _))
  | .adds _ => .isTrue trivial

/-! ## What a reconciliation knows of each check -/

/-- The draft's check after a reconciliation. -/
structure Met (d : CheckDraft) (c : Check Digest) : Prop where
  settles : Settles imp.sha256 c d
  readsBack : imp.ReadsBack c.toRule
  enabled : d.enabled = true → c.enabled = true
  kind : c.enabled = true → c.kind = d.kind

/-- A check whose clause is not in the document, after a reconciliation. -/
structure Left (c : Check Digest) : Prop where
  disabled : c.enabled = false
  unedited : c.unedited imp.sha256 = true
  readsBack : imp.ReadsBack c.toRule

def After (drafts : List CheckDraft) (k : ClauseRef) (c : Check Digest) : Prop :=
  match wanted drafts k with
  | some d => Met imp d c
  | none => Left imp c

/-- What holds of the checks of a suite between two imports. -/
structure Kept (checks : List (Check Digest)) : Prop where
  unique : KeysUnique Check.clause? checks
  named : ∀ c ∈ checks, c.origin = .contract → c.clause? ≠ none
  unedited : ∀ c ∈ checks, c.clause? ≠ none → c.unedited imp.sha256 = true
  atRest : ∀ c ∈ checks, c.clause? ≠ none → imp.read c.toRule = c.toRule

omit [DecidableEq Digest] in
theorem read_read (r : Rule) : imp.read (imp.read r) = imp.read r := by
  have hthreshold : ∀ t : Option Decimal,
      (t.map imp.readThreshold).map imp.readThreshold = t.map imp.readThreshold := by
    intro t
    cases t with
    | none => rfl
    | some t => rw [Option.map_some, Option.map_some, imp.readThreshold_twice]
  unfold Importer.read
  simp only [imp.readConfig_twice, hthreshold]

omit [DecidableEq Digest] in
@[simp] theorem clause?_stored (c : Check Digest) : (imp.stored c).clause? = c.clause? := rfl

theorem unedited_stored {c : Check Digest} (h : c.unedited imp.sha256 = true)
    (hread : imp.ReadsBack c.toRule) : (imp.stored c).unedited imp.sha256 = true := by
  obtain ⟨ref, href, hfp⟩ := (unedited_iff imp.sha256).mp h
  rw [unedited_iff]
  refine ⟨ref, href, hfp.trans ?_⟩
  rw [fingerprint, fingerprint, Importer.stored, hread]

theorem settles_stored {c : Check Digest} {d : CheckDraft} (h : Settles imp.sha256 c d)
    (hread : imp.ReadsBack c.toRule) : Settles imp.sha256 (imp.stored c) d := by
  have hbaseline : (refreshDeclaredBaseline (imp.stored c) d).2 =
      (refreshDeclaredBaseline c d).2 := by
    have hrow : (imp.stored c).baseline = c.baseline := rfl
    unfold refreshDeclaredBaseline
    rw [hrow]
    split
    · split
      · rfl
      · split <;> rfl
    · rfl
  exact ⟨unedited_stored imp h.unedited hread, hread.trans h.rule, h.opened,
    hbaseline.trans h.baseline⟩

theorem unedited_retire {c : Check Digest} (h : c.unedited imp.sha256 = true) :
    (retire c).unedited imp.sha256 = true := by
  obtain ⟨ref, href, hfp⟩ := (unedited_iff imp.sha256).mp h
  rw [unedited_iff]
  refine ⟨{ ref with disabledByContract := true }, ?_, hfp⟩
  rw [retire, href, Option.map_some]

/-- The check of every clause after a reconciliation of a suite's checks with sound drafts. -/
theorem after_reconcile (hsha : Function.Injective imp.sha256) (odcsId : Text)
    {s : Option (Suite Digest)} {drafts : List CheckDraft} (hkept : Kept imp (checksOf s))
    (hsound : Reconcilable imp s drafts) {k : ClauseRef} {c : Check Digest}
    (hc : keyed Check.clause? (reconcile imp.sha256 odcsId (checksOf s) drafts).1 k = some c) :
    After imp drafts k c := by
  have hrefs := hsound.1
  have hpolicy := reconcile_reconciles imp.sha256 odcsId hkept.unique hrefs
  refine hpolicy.forall_held (I := After imp drafts) ?_ ?_ ?_ hc
  · rintro k d _ hwant ⟨n, rfl⟩
    obtain ⟨hd, rfl⟩ := (wanted_eq_some hrefs).mp hwant
    have hkeeps : ∀ c : Check Digest, (seedDeclaredBaseline c d).toRule = c.toRule ∧
        (seedDeclaredBaseline c d).enabled = c.enabled ∧
        (seedDeclaredBaseline c d).kind = c.kind := by
      intro c
      unfold seedDeclaredBaseline
      split <;> exact ⟨rfl, rfl, rfl⟩
    obtain ⟨hrule, henabled, hkind⟩ := hkeeps (newCheck imp.sha256 odcsId d n)
    simp only [After, hwant]
    refine ⟨settles_seeded imp.sha256 odcsId d n, ?_, fun h => ?_, fun _ => hkind⟩
    · rw [hrule]
      exact (hsound.2 d hd).1
    · rw [henabled]
      exact h
  · intro k c d hheld hwant
    obtain ⟨hd, rfl⟩ := (wanted_eq_some hrefs).mp hwant
    obtain ⟨hmem, hk⟩ := key_of_keyed hheld
    have hnamed : c.clause? ≠ none := by rw [hk]; exact Option.some_ne_none _
    have hunedited := hkept.unedited c hmem hnamed
    obtain ⟨hfitsOn, hfitsKind⟩ := (hsound.2 d hd).2 c hmem hk
    obtain ⟨hkind, henabled, hrule⟩ := revise_keeps imp.sha256 odcsId (d := d) hunedited
    simp only [After, hwant, clausePolicy]
    refine ⟨settles_revise imp.sha256 odcsId hsha hunedited, ?_, fun h => ?_, fun h => ?_⟩
    · rcases hrule with hsame | hnew
      · rw [hsame, Importer.ReadsBack, hkept.atRest c hmem hnamed]
      · rw [hnew]
        exact (hsound.2 d hd).1
    · rw [henabled]
      exact hfitsOn h
    · rw [hkind]
      rw [henabled] at h
      exact hfitsKind h
  · intro k c hheld hwant
    obtain ⟨hmem, hk⟩ := key_of_keyed hheld
    have hnamed : c.clause? ≠ none := by rw [hk]; exact Option.some_ne_none _
    have hunedited := hkept.unedited c hmem hnamed
    have hread : imp.ReadsBack c.toRule := by
      rw [Importer.ReadsBack, hkept.atRest c hmem hnamed]
    simp only [After, hwant, clausePolicy]
    by_cases hon : c.enabled = true
    · rw [if_pos hon]
      exact ⟨rfl, unedited_retire imp hunedited, hread⟩
    · rw [if_neg hon]
      exact ⟨by simpa using hon, hunedited, hread⟩

end DataQ.Contracts
