import DataQ.Contracts.Imports

/-! # Runs of imports

Where every import of a run finds drafts and a suite that are sound, the suite has after each of
them the checks that its document asks for. -/

namespace DataQ.Contracts
open Runs (CheckKind)
open Reconciliation Transition
set_option autoImplicit false

variable {Digest : Type} [DecidableEq Digest] (imp : Importer Digest) (object : Text)

/-! ## One import -/

omit [DecidableEq Digest] in
theorem clause?_isSome_iff {c : Check Digest} : c.clause? ≠ none ↔ ∃ k, c.clause? = some k :=
  Option.ne_none_iff_exists'

theorem After.unedited {drafts : List CheckDraft} {k : ClauseRef} {c : Check Digest}
    (h : After imp drafts k c) : c.unedited imp.sha256 = true ∧ imp.ReadsBack c.toRule := by
  unfold After at h
  split at h
  · exact ⟨h.settles.unedited, h.readsBack⟩
  · exact ⟨h.unedited, h.readsBack⟩

theorem kept_stored {checks : List (Check Digest)} (hunique : KeysUnique Check.clause? checks)
    (hnamed : ∀ c ∈ checks, c.origin = .contract → c.clause? ≠ none)
    (h : ∀ c ∈ checks, c.clause? ≠ none →
      c.unedited imp.sha256 = true ∧ imp.ReadsBack c.toRule) :
    Kept imp (checks.map imp.stored) := by
  refine ⟨(keysUnique_map fun c _ => clause?_stored imp c).mpr hunique, ?_, ?_, ?_⟩
  · intro c hc horigin
    obtain ⟨old, hold, rfl⟩ := List.mem_map.mp hc
    exact hnamed old hold horigin
  · intro c hc hclause
    obtain ⟨old, hold, rfl⟩ := List.mem_map.mp hc
    obtain ⟨hunedited, hread⟩ := h old hold hclause
    exact unedited_stored imp hunedited hread
  · intro c hc _
    obtain ⟨old, -, rfl⟩ := List.mem_map.mp hc
    exact read_read imp old.toRule

section Reconciled

variable {s : Option (Suite Digest)} {drafts : List CheckDraft} (odcsId : Text)

/-- The checks of the suite after a reconciliation, as they are read back. -/
def importedChecks (s : Option (Suite Digest)) (drafts : List CheckDraft) : List (Check Digest) :=
  (reconcile imp.sha256 odcsId (checksOf s) drafts).1.map imp.stored

theorem kept_imported (hsha : Function.Injective imp.sha256) (hkept : Kept imp (checksOf s))
    (hsound : Reconcilable imp s drafts) : Kept imp (importedChecks imp odcsId s drafts) := by
  have hunique := keysUnique_reconcile imp.sha256 odcsId hkept.unique hsound.1
  refine kept_stored imp hunique
    (clause?_reconcile imp.sha256 odcsId hkept.unique hsound.1 hkept.named) fun c hc hclause => ?_
  obtain ⟨k, hk⟩ := clause?_isSome_iff.mp hclause
  have hkeyed := (keyed_eq_some hunique).mpr ⟨hc, hk⟩
  exact (after_reconcile imp hsha odcsId hkept hsound hkeyed).unedited

theorem exists_imported (hsha : Function.Injective imp.sha256) (hkept : Kept imp (checksOf s))
    (hsound : Reconcilable imp s drafts) {d : CheckDraft} (hd : d ∈ drafts) :
    ∃ c, keyed Check.clause? (importedChecks imp odcsId s drafts) d.ref = some (imp.stored c) ∧
      Met imp d c := by
  have hpolicy := reconcile_reconciles imp.sha256 odcsId hkept.unique hsound.1 d.ref
  have hwant := (wanted_eq_some hsound.1).mpr ⟨hd, rfl⟩
  rw [hwant] at hpolicy
  have hsome : ∃ c, keyed Check.clause?
      (reconcile imp.sha256 odcsId (checksOf s) drafts).1 d.ref = some c := by
    generalize keyed Check.clause? (checksOf s) d.ref = held at hpolicy
    generalize keyed Check.clause? _ d.ref = after at hpolicy ⊢
    cases hpolicy with
    | created _ => exact ⟨_, rfl⟩
    | revised c _ => exact ⟨_, rfl⟩
  obtain ⟨c, hc⟩ := hsome
  refine ⟨c, ?_, ?_⟩
  · rw [importedChecks, keyed_map fun c _ => clause?_stored imp c, hc, Option.map_some]
  · have hafter := after_reconcile imp hsha odcsId hkept hsound hc
    simpa only [After, hwant] using hafter

theorem Met.enforces {d : CheckDraft} {c : Check Digest} (h : Met imp d c)
    (hclause : c.clause? = some d.ref) (hon : c.enabled = true) : Enforces d (imp.stored c) :=
  ⟨hon, hclause, h.kind hon, h.readsBack.trans h.settles.rule⟩

theorem countP_imported (hsha : Function.Injective imp.sha256) (hkept : Kept imp (checksOf s))
    (hsound : Reconcilable imp s drafts) {d : CheckDraft} (hd : d ∈ drafts)
    (hon : d.enabled = true) :
    (importedChecks imp odcsId s drafts).countP (fun c => Enforces d c) = 1 := by
  obtain ⟨c, hc, hmet⟩ := exists_imported imp odcsId hsha hkept hsound hd
  have hclause : c.clause? = some d.ref := (key_of_keyed hc).2
  refine countP_eq_one_of_keyed (kept_imported imp odcsId hsha hkept hsound).unique hc ?_ ?_
  · simpa using hmet.enforces imp hclause (hmet.enabled hon)
  · intro e he
    have henforces : Enforces d e := by simpa using he
    exact henforces.2.1

theorem enforced_imported (hsha : Function.Injective imp.sha256) (hkept : Kept imp (checksOf s))
    (hsound : Reconcilable imp s drafts) {c : Check Digest}
    (hc : c ∈ importedChecks imp odcsId s drafts) {k : ClauseRef} (hk : c.clause? = some k)
    (hon : c.enabled = true) : ∃ d ∈ drafts, Enforces d c := by
  obtain ⟨old, hold, rfl⟩ := List.mem_map.mp hc
  have hunique := keysUnique_reconcile imp.sha256 odcsId hkept.unique hsound.1
  have hafter := after_reconcile imp hsha odcsId hkept hsound
    ((keyed_eq_some hunique).mpr ⟨hold, hk⟩)
  unfold After at hafter
  split at hafter
  · next d hwant =>
    obtain ⟨hd, rfl⟩ := (wanted_eq_some hsound.1).mp hwant
    exact ⟨d, hd, hafter.enforces imp hk hon⟩
  · have hoff : old.enabled = false := hafter.disabled
    have hon' : old.enabled = true := hon
    rw [hoff] at hon'
    cases hon'

theorem counts_imported (hsha : Function.Injective imp.sha256) (hkept : Kept imp (checksOf s))
    (hsound : Reconcilable imp s drafts) (other : Text) :
    (reconcile imp.sha256 other (importedChecks imp odcsId s drafts) drafts).2 = ⟨0, 0, 0⟩ := by
  refine reconcile_counts_eq_zero imp.sha256 other
    (kept_imported imp odcsId hsha hkept hsound).unique hsound.1 ?_ ?_
  · intro d hd
    obtain ⟨c, hc, hmet⟩ := exists_imported imp odcsId hsha hkept hsound hd
    exact ⟨imp.stored c, hc, settles_stored imp hmet.settles hmet.readsBack⟩
  · intro c hc k hk hnot
    cases hon : c.enabled with
    | false => rfl
    | true =>
      obtain ⟨d, hd, henforces⟩ := enforced_imported imp odcsId hsha hkept hsound hc hk hon
      have hkd : k = d.ref := Option.some.inj (hk.symm.trans henforces.2.1)
      exact absurd (List.mem_map.mpr ⟨d, hd, hkd.symm⟩) hnot

end Reconciled

/-- A suite whose object is gone keeps its checks, all of them off. -/
theorem kept_retireAll {checks : List (Check Digest)} (hkept : Kept imp checks) :
    Kept imp ((retireAll checks).1.map imp.stored) := by
  have hclause : ∀ c : Check Digest,
      (if c.origin = .contract ∧ c.enabled = true then retire c else c).clause? = c.clause? := by
    intro c
    split
    · exact clause?_retire c
    · rfl
  refine kept_stored imp ((keysUnique_map fun c _ => hclause c).mpr hkept.unique) ?_ ?_
  · intro c hc horigin
    obtain ⟨old, hold, rfl⟩ := List.mem_map.mp hc
    rw [hclause]
    refine hkept.named old hold ?_
    split at horigin <;> exact horigin
  · intro c hc hnamed
    obtain ⟨old, hold, rfl⟩ := List.mem_map.mp hc
    rw [hclause] at hnamed
    have hunedited := hkept.unedited old hold hnamed
    have hread : imp.ReadsBack old.toRule := by
      rw [Importer.ReadsBack, hkept.atRest old hold hnamed]
    split
    · exact ⟨unedited_retire imp hunedited, hread⟩
    · exact ⟨hunedited, hread⟩

/-- What an import that reaches the suite does. -/
inductive Imported (i : Import) (s : Option (Suite Digest)) : Suite Digest → Prop
  | reconciled (odcsId : Text) (drafts : List CheckDraft) (hid : odcsId = imp.odcsId i)
      (hvalid : imp.valid i.contract = true) (hdrafts : imp.drafts? object i = some drafts) :
      Imported i s ⟨odcsId, some object, importedChecks imp odcsId s drafts⟩
  | retired (suite : Suite Digest) (hs : s = some suite) (hdrafts : imp.drafts? object i = none) :
      Imported i s
        { suite with
          contractObject := none
          checks := (retireAll suite.checks).1.map imp.stored }

theorem importContract_cases {i : Import} {s : Option (Suite Digest)}
    {out : Suite Digest × Counts}
    (hrefs : (((imp.drafts? object i).getD []).map CheckDraft.ref).Nodup)
    (h : importContract imp object i s = some out) : Imported imp object i s out.1 := by
  cases s with
  | none =>
    simp only [importContract] at h
    split at h
    · cases h
    · next hvalid =>
      obtain ⟨drafts, hdrafts, rfl⟩ := Option.map_eq_some_iff.mp h
      rw [hdrafts, Option.getD_some] at hrefs
      have hchecks : (seeded imp.sha256 (imp.odcsId i) 1 drafts).map imp.stored =
          importedChecks imp (imp.odcsId i) none drafts := by
        rw [importedChecks, checksOf, reconcile_nil imp.sha256 _ hrefs]
      simp only [hchecks]
      exact .reconciled _ drafts rfl (by simpa using hvalid) hdrafts
  | some suite =>
    simp only [importContract] at h
    split at h
    · cases h
    · next hpass =>
      have hpass' : imp.valid i.contract = true ∧ suite.odcsId = imp.odcsId i ∧
          suite.contractObject = some object := by simpa [and_assoc] using hpass
      obtain ⟨hvalid, hid, hobject⟩ := hpass'
      cases hdrafts : imp.drafts? object i with
      | none =>
        simp only [hdrafts, Option.some.injEq] at h
        subst h
        exact .retired suite rfl hdrafts
      | some drafts =>
        simp only [hdrafts, Option.some.injEq] at h
        subst h
        have hsuite : ({ suite with
            checks := (reconcile imp.sha256 suite.odcsId suite.checks drafts).1.map imp.stored } :
              Suite Digest) =
            ⟨suite.odcsId, some object, importedChecks imp suite.odcsId (some suite) drafts⟩ := by
          rw [← hobject]
          rfl
        simp only [hsuite]
        exact .reconciled suite.odcsId drafts hid hvalid hdrafts

theorem kept_import (hsha : Function.Injective imp.sha256) {i : Import}
    {s : Option (Suite Digest)} {out : Suite Digest × Counts} (hkept : Kept imp (checksOf s))
    (hsound : Sound imp object s (.imports i)) (h : importContract imp object i s = some out) :
    Kept imp out.1.checks := by
  obtain ⟨after, counts⟩ := out
  have hcases := importContract_cases imp object hsound.1 h
  dsimp only at hcases ⊢
  cases hcases with
  | reconciled odcsId drafts hid hvalid hdrafts =>
    simp only [Sound, hdrafts, Option.getD_some] at hsound
    exact kept_imported imp odcsId hsha hkept hsound
  | retired suite hs hdrafts =>
    subst hs
    exact kept_retireAll imp hkept

theorem asked_import (hsha : Function.Injective imp.sha256) {i : Import}
    {s : Option (Suite Digest)} {out : Suite Digest × Counts} (hkept : Kept imp (checksOf s))
    (hsound : Sound imp object s (.imports i)) (h : importContract imp object i s = some out) :
    Asked imp object i out.1 := by
  have hnew := kept_import imp object hsha hkept hsound h
  obtain ⟨after, counts⟩ := out
  have hcases := importContract_cases imp object hsound.1 h
  dsimp only at hcases ⊢
  cases hcases with
  | reconciled odcsId drafts hid hvalid hdrafts =>
    simp only [Sound, hdrafts, Option.getD_some] at hsound
    have hagain : importContract imp object i
        (some ⟨odcsId, some object, importedChecks imp odcsId s drafts⟩) =
        some (⟨odcsId, some object,
          importedChecks imp odcsId (some ⟨odcsId, some object,
            importedChecks imp odcsId s drafts⟩) drafts⟩, ⟨0, 0, 0⟩) := by
      simp only [importContract, hvalid, hid, hdrafts, Bool.not_true, ne_eq, not_true_eq_false,
        decide_false, Bool.or_false, Bool.false_eq_true, if_false]
      rw [counts_imported imp _ hsha hkept hsound]
      rfl
    refine ⟨?_, ?_, ?_, ?_⟩
    · intro d hd hon
      rw [hdrafts, Option.getD_some] at hd
      exact countP_imported imp odcsId hsha hkept hsound hd hon
    · intro c hc horigin hon
      obtain ⟨k, hk⟩ := clause?_isSome_iff.mp (hnew.named c hc horigin)
      rw [hdrafts, Option.getD_some]
      exact enforced_imported imp odcsId hsha hkept hsound hc hk hon
    · intro again hout
      rw [hagain, Option.some.injEq] at hout
      rw [← hout]
    · intro _
      rw [hagain]
      rfl
  | retired suite hs hdrafts =>
    refine ⟨?_, ?_, ?_, ?_⟩
    · intro d hd
      rw [hdrafts] at hd
      cases hd
    · intro c hc horigin hon
      obtain ⟨retired, hretired, rfl⟩ := List.mem_map.mp hc
      obtain ⟨old, -, rfl⟩ := List.mem_map.mp hretired
      by_cases hold : old.origin = .contract ∧ old.enabled = true
      · simp [Importer.stored, hold, retire] at hon
      · rw [if_neg hold] at horigin hon
        exact absurd ⟨horigin, hon⟩ hold
    · intro again hout
      simp [importContract] at hout
    · intro hsome
      rw [hdrafts] at hsome
      cases hsome

/-! ## Runs -/

theorem kept_start : Kept imp (checksOf (none : Option (Suite Digest))) where
  unique := List.nodup_nil
  named := fun _ hc => absurd hc List.not_mem_nil
  unedited := fun _ hc => absurd hc List.not_mem_nil
  atRest := fun _ hc => absurd hc List.not_mem_nil

theorem kept_add {checks : List (Check Digest)} {c : Check Digest} (hkept : Kept imp checks)
    (hc : c.origin ≠ .contract) : Kept imp (checks ++ [c]) := by
  have hnone : c.clause? = none := by rw [Check.clause?, if_neg hc]
  have hsplit : ∀ e ∈ checks ++ [c], e.clause? ≠ none → e ∈ checks := by
    intro e he hclause
    rcases List.mem_append.mp he with hold | hnew
    · exact hold
    · obtain rfl := List.mem_singleton.mp hnew
      exact absurd hnone hclause
  refine ⟨?_, ?_, fun e he hclause => hkept.unedited e (hsplit e he hclause) hclause,
    fun e he hclause => hkept.atRest e (hsplit e he hclause) hclause⟩
  · have hfilter : (checks ++ [c]).filterMap Check.clause? = checks.filterMap Check.clause? := by
      rw [List.filterMap_append, List.filterMap_cons_none hnone, List.filterMap_nil,
        List.append_nil]
    rw [KeysUnique, hfilter]
    exact hkept.unique
  · intro e he horigin
    rcases List.mem_append.mp he with hold | hnew
    · exact hkept.named e hold horigin
    · obtain rfl := List.mem_singleton.mp hnew
      exact absurd horigin hc

theorem kept_step (hsha : Function.Injective imp.sha256) {s t : Option (Suite Digest)}
    {e : Event Digest} (hkept : Kept imp (checksOf s)) (hsound : Sound imp object s e)
    (h : step imp object s e = some t) : Kept imp (checksOf t) := by
  cases e with
  | imports i =>
    obtain ⟨out, hout, rfl⟩ := Option.map_eq_some_iff.mp h
    exact kept_import imp object hsha hkept hsound hout
  | adds c =>
    rw [step] at h
    split at h
    · cases h
    · next hc =>
      obtain ⟨suite, rfl, rfl⟩ := Option.map_eq_some_iff.mp h
      exact kept_add imp hkept hc

/-- After each import of a run whose imports are sound, the suite has exactly the checks that the
document asks for. -/
theorem imports_leave_asked (hsha : Function.Injective imp.sha256)
    (events : List (Event Digest)) {i : Import} {s : Option (Suite Digest)}
    (hmeets : Meets (step imp object) (Sound imp object) none (events ++ [.imports i]))
    (hrun : run (step imp object) none (events ++ [.imports i]) = some s) :
    ∃ suite, s = some suite ∧ Asked imp object i suite := by
  obtain ⟨before, hbefore, hlast⟩ := run_append_eq_some.mp hrun
  obtain ⟨hmeetsBefore, hmeetsLast⟩ := hmeets.of_append hbefore
  have hkept : Kept imp (checksOf before) :=
    run_invariant (I := fun s => Kept imp (checksOf s))
      (fun s e t hs hsound ht => kept_step imp object hsha hs hsound ht) (kept_start imp)
      hmeetsBefore hbefore
  obtain ⟨t, ht, hnil⟩ := run_cons_eq_some.mp hlast
  obtain rfl : t = s := Option.some.inj hnil
  obtain ⟨out, hout, rfl⟩ := Option.map_eq_some_iff.mp ht
  exact ⟨out.1, rfl, asked_import imp object hsha hkept hmeetsLast.1 hout⟩

/-! ## Two contracts -/

def plainTools : Tools where
  py := asciiPython
  repr := fun _ => []
  parse := fun _ => none
  contentKey := fun _ => "0123456789ab".toList
  hex := fun _ => by decide

/-- A store that gives back what it was given, and a hash that is its own preimage. -/
def plainImporter : Importer Canonical where
  tools := plainTools
  connectionType := "postgres".toList
  valid := fun _ => true
  sha256 := id
  readConfig := id
  readThreshold := id
  readConfig_twice := fun _ => rfl
  readThreshold_twice := fun _ => rfl

def field (key : String) (value : Json) : Text × Json := (key.toList, value)

def ordersContract (rule : Fields) : Import where
  contract := .obj
    [field "kind" (.str "DataContract".toList), field "apiVersion" (.str "v3.1.0".toList),
      field "id" (.str "orders".toList), field "version" (.str "1.0.0".toList),
      field "status" (.str "active".toList),
      field "schema" (.arr [.obj
        [field "name" (.str "orders".toList),
          field "properties" (.arr [.obj
            [field "name" (.str "country".toList), field "required" (.bool true),
              field "quality" (.arr [.obj rule])]])]])]
  refusal := fun _ => none

/-- A rule of the column. -/
def countryRule (metric : String) (arguments : Fields) : Fields :=
  [field "id" (.str "q1".toList), field "metric" (.str metric.toList),
    field "mustBe" (.num (.ofNat 0))] ++ arguments

def nullsRule : Fields := countryRule "nullValues" []

def duplicatesRule : Fields := countryRule "duplicateValues" []

/-- A rule that counts null and a marker as missing: two drafts of one clause. -/
def missingRule : Fields :=
  countryRule "missingValues"
    [field "arguments" (.obj [field "missingValues" (.arr [.null, .str "N/A".toList])])]

def importsOf (rules : List Fields) : List (Event Canonical) :=
  rules.map fun rule => .imports (ordersContract rule)

/-- The suite after the imports of some contracts. -/
def imported (rules : List Fields) : Option (Suite Canonical) :=
  (run (step plainImporter "orders".toList) none (importsOf rules)).getD none

theorem run_importsOf {rules : List Fields}
    (h : (run (step plainImporter "orders".toList) none (importsOf rules)).isSome) :
    run (step plainImporter "orders".toList) none (importsOf rules) = some (imported rules) := by
  obtain ⟨s, hs⟩ := Option.isSome_iff_exists.mp h
  rw [imported, hs, Option.getD_some]

theorem imports_leave_asked_orders :
    ∃ suite, imported [nullsRule, duplicatesRule] = some suite ∧
      Asked plainImporter "orders".toList (ordersContract duplicatesRule) suite :=
  imports_leave_asked plainImporter "orders".toList Function.injective_id (importsOf [nullsRule])
    (by decide) (@run_importsOf [nullsRule, duplicatesRule] (by decide))

def reimported (rule : Fields) : Option Counts :=
  (imported [rule]).bind fun suite =>
    (importContract plainImporter "orders".toList (ordersContract rule) (some suite)).map Prod.snd

theorem reimported_missingRule : reimported missingRule = some ⟨0, 2, 0⟩ := by decide

/-- One import of a valid contract leaves a suite that the same contract updates again. -/
theorem missing_null_updates_again :
    ∃ suite, run (step plainImporter "orders".toList) none (importsOf [missingRule]) =
        some (some suite) ∧
      ¬ Asked plainImporter "orders".toList (ordersContract missingRule) suite := by
  have hrun : (run (step plainImporter "orders".toList) none (importsOf [missingRule])).isSome ∧
      (imported [missingRule]).isSome := by decide
  obtain ⟨suite, hsuite⟩ := Option.isSome_iff_exists.mp hrun.2
  have hagain := reimported_missingRule
  rw [reimported, hsuite, Option.bind_some, Option.map_eq_some_iff] at hagain
  obtain ⟨out, hout, hcounts⟩ := hagain
  refine ⟨suite, ?_, fun hasked => ?_⟩
  · rw [run_importsOf hrun.1, hsuite]
  · rw [hasked.again out hout] at hcounts
    cases hcounts

end DataQ.Contracts
