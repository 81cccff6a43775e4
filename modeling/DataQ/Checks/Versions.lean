import Mathlib.Data.Rat.Defs
import DataQ.Foundations.Transition

/-! # Versions of a check

`check_service`: the requests that write a check, each of which adds a snapshot of it as its next
version. A request loads the row, changes its own copy, and writes the columns that the copy has
changed; the snapshot is of the copy. A config of type `κ` is taken up to the equality of dicts, a
threshold by its value. -/

namespace DataQ.Checks
open DataQ.Interleaving DataQ.Transition
set_option autoImplicit false

/-- The columns of a `checks` row that a version records. -/
structure CheckRow (κ : Type) where
  name : String
  kind : String
  engine : String
  expectationType : String
  dimension : Option String
  sourceConnectionId : Option ℕ
  config : κ
  warnThreshold : Option ℚ
  failThreshold : Option ℚ
  criticalThreshold : Option ℚ
  enabled : Bool
  deriving DecidableEq

structure CheckVersion (κ : Type) where
  versionNo : ℕ
  check : CheckRow κ
  redacted : Bool
  deriving DecidableEq

/-- The check, once it is created, and its versions in the order of their insertion. -/
structure Store (κ : Type) where
  check : Option (CheckRow κ)
  versions : List (CheckVersion κ)
  deriving DecidableEq

/-- What an update sends; for a threshold `none` is `KEEP`. -/
structure CheckPatch (κ : Type) where
  name : Option String
  expectationType : Option String
  config : Option κ
  warnThreshold : Option (Option ℚ)
  failThreshold : Option (Option ℚ)
  criticalThreshold : Option (Option ℚ)
  sourceConnectionId : Option ℕ
  dimension : Option String
  engine : Option String
  enabled : Option Bool

inductive Request (κ : Type)
  | create (check : CheckRow κ)
  | update (patch : CheckPatch κ)
  | setEnabled (enabled : Bool)
  | setThresholds (warn fail critical : Option (Option ℚ))
  | restore (versionNo : ℕ)
  | redact (versionNo : ℕ)

/-- `settle_edit` and the validators, as the settings and the connections of the moment have them:
the config and the thresholds that an edit leaves, and whether what a request makes of a row is
accepted. -/
structure Rules (κ : Type) where
  settle : CheckRow κ → Option κ → (warn fail critical : Option (Option ℚ)) →
    Option (κ × Option ℚ × Option ℚ × Option ℚ)
  admits : Request κ → CheckRow κ → CheckRow κ → Bool

variable {κ : Type} [DecidableEq κ]

/-- `select max(version_no)`, and 0 where there is no version. -/
def Store.latestVersionNo (store : Store κ) : ℕ := ((store.versions.map (·.versionNo)).max?).getD 0

def Store.version (store : Store κ) (versionNo : ℕ) : Option (CheckVersion κ) :=
  store.versions.find? (·.versionNo = versionNo)

omit [DecidableEq κ] in
def CheckPatch.definitionUntouched (p : CheckPatch κ) : Bool :=
  p.name.isNone && p.expectationType.isNone && p.config.isNone && p.sourceConnectionId.isNone &&
    p.dimension.isNone && p.engine.isNone && p.warnThreshold.isNone && p.failThreshold.isNone &&
    p.criticalThreshold.isNone

/-- The copy that `update_check` leaves of the row it loaded. -/
def updated (rules : Rules κ) (p : CheckPatch κ) (row : CheckRow κ) : Option (CheckRow κ) :=
  if p.definitionUntouched ∧ p.enabled.isSome then
    some { row with enabled := p.enabled.getD row.enabled }
  else
    match rules.settle row p.config p.warnThreshold p.failThreshold p.criticalThreshold with
    | none => none
    | some (config, warn, fail, critical) =>
      let new : CheckRow κ :=
        { row with
          name := p.name.getD row.name
          expectationType := p.expectationType.getD row.expectationType
          config := if config ≠ row.config then config else p.config.getD row.config
          sourceConnectionId := p.sourceConnectionId.or row.sourceConnectionId
          warnThreshold := warn
          failThreshold := fail
          criticalThreshold := critical
          dimension := p.dimension.or row.dimension
          engine := p.engine.getD row.engine
          enabled := p.enabled.getD row.enabled }
      if rules.admits (.update p) row new then some new else none

/-- The copy that `bulk_set_thresholds` leaves. -/
def withThresholds (rules : Rules κ) (warn fail critical : Option (Option ℚ)) (row : CheckRow κ) :
    Option (CheckRow κ) :=
  match rules.settle row none warn fail critical with
  | none => none
  | some (config, newWarn, newFail, newCritical) =>
    let new : CheckRow κ :=
      { row with
        config := config
        warnThreshold := newWarn
        failThreshold := newFail
        criticalThreshold := newCritical }
    if rules.admits (.setThresholds warn fail critical) row new then some new else none

/-- The copy that `restore_check_version` leaves. -/
def restored (rules : Rules κ) (store : Store κ) (versionNo : ℕ) (row : CheckRow κ) :
    Option (CheckRow κ) :=
  match store.version versionNo with
  | none => none
  | some version =>
    let new : CheckRow κ := { version.check with kind := row.kind, enabled := row.enabled }
    if version.redacted ∨ version.check.kind ≠ row.kind ∨
        rules.admits (.restore versionNo) row new = false then none
    else some new

/-- The copy that a request leaves of the row it loaded; `none` where it is refused. -/
def planned (rules : Rules κ) (store : Store κ) (row : CheckRow κ) :
    Request κ → Option (CheckRow κ)
  | .update p => updated rules p row
  | .setEnabled enabled => some { row with enabled := enabled }
  | .setThresholds warn fail critical => withThresholds rules warn fail critical row
  | .restore versionNo => restored rules store versionNo row
  | .create _ | .redact _ => none

/-! ## Writing -/

/-- A column after an `UPDATE` of what the copy has changed. -/
def column {β : Type} [DecidableEq β] (stored loaded new : β) : β :=
  if new = loaded then stored else new

def merge (stored loaded new : CheckRow κ) : CheckRow κ where
  name := column stored.name loaded.name new.name
  kind := column stored.kind loaded.kind new.kind
  engine := column stored.engine loaded.engine new.engine
  expectationType := column stored.expectationType loaded.expectationType new.expectationType
  dimension := column stored.dimension loaded.dimension new.dimension
  sourceConnectionId :=
    column stored.sourceConnectionId loaded.sourceConnectionId new.sourceConnectionId
  config := column stored.config loaded.config new.config
  warnThreshold := column stored.warnThreshold loaded.warnThreshold new.warnThreshold
  failThreshold := column stored.failThreshold loaded.failThreshold new.failThreshold
  criticalThreshold := column stored.criticalThreshold loaded.criticalThreshold new.criticalThreshold
  enabled := column stored.enabled loaded.enabled new.enabled

/-- The `UPDATE` of the check and the `INSERT` of its snapshot, in one commit. -/
def Store.write (store : Store κ) (loaded new : CheckRow κ) (versionNo : ℕ) : Store κ where
  check := store.check.map fun stored => merge stored loaded new
  versions := store.versions ++ [⟨versionNo, new, false⟩]

/-- `version_redaction.redact`; `kept` is what stays of a config. -/
def Store.redact (kept : κ → κ) (store : Store κ) (versionNo : ℕ) : Store κ :=
  { store with versions := store.versions.map fun v =>
      if v.versionNo = versionNo ∧ v.redacted = false then
        { v with check := { v.check with config := kept v.check.config }, redacted := true }
      else v }

/-! ## Requests side by side -/

/-- Where a request stands. -/
inductive Pc (κ : Type)
  | waiting (request : Request κ)
  | loaded (request : Request κ) (row : CheckRow κ)
  | planned (row new : CheckRow κ)
  | numbered (row new : CheckRow κ) (versionNo : ℕ)
  | committed
  | refused

/-- The statements of a request. It reads its version number before its commit, or with the `UPDATE`
that the commit flushes; it may be refused at any time, as for another check of a bulk edit. -/
inductive Statement (κ : Type)
  | load
  | plan (rules : Rules κ)
  | readVersion
  | commit
  | refuse

omit [DecidableEq κ] in
def Pc.holdsRow : Pc κ → Bool
  | .loaded _ _ | .planned _ _ | .numbered _ _ _ => true
  | .waiting _ | .committed | .refused => false

variable (kept : κ → κ)

/-- One statement. A commit waits for the row lock of another request's, so it is one with its
`UPDATE`; the unique constraint refuses a version number that is taken. -/
def act (statement : Statement κ) (store : Store κ) (pc : Pc κ) : Option (Store κ × Pc κ) :=
  match statement, pc with
  | .commit, .waiting (.create row) =>
    match store.check with
    | none => some (⟨some row, store.versions ++ [⟨store.latestVersionNo + 1, row, false⟩]⟩, .committed)
    | some _ => none
  | .commit, .waiting (.redact versionNo) =>
    if store.check.isNone ∨ (store.version versionNo).isNone ∨ versionNo = store.latestVersionNo then
      some (store, .refused)
    else some (store.redact kept versionNo, .committed)
  | .load, .waiting (.create _) | .load, .waiting (.redact _) => none
  | .load, .waiting request =>
    match store.check with
    | none => some (store, .refused)
    | some row => some (store, .loaded request row)
  | .plan rules, .loaded request row =>
    match planned rules store row request with
    | none => some (store, .refused)
    | some new => some (store, .planned row new)
  | .readVersion, .planned row new =>
    if new = row then none else some (store, .numbered row new (store.latestVersionNo + 1))
  | .commit, .planned row new =>
    if new = row then some (store, .committed)
    else some (store.write row new (store.latestVersionNo + 1), .committed)
  | .commit, .numbered row new versionNo =>
    if versionNo ∈ store.versions.map (·.versionNo) then some (store, .refused)
    else some (store.write row new versionNo, .committed)
  | .refuse, .committed | .refuse, .refused => none
  | .refuse, _ => some (store, .refused)
  | _, _ => none

/-- Nobody has changed a stored column that the copy leaves as it was loaded. -/
structure Undisturbed (stored loaded new : CheckRow κ) : Prop where
  name : new.name = loaded.name → stored.name = loaded.name
  kind : new.kind = loaded.kind → stored.kind = loaded.kind
  engine : new.engine = loaded.engine → stored.engine = loaded.engine
  expectationType : new.expectationType = loaded.expectationType →
    stored.expectationType = loaded.expectationType
  dimension : new.dimension = loaded.dimension → stored.dimension = loaded.dimension
  sourceConnectionId : new.sourceConnectionId = loaded.sourceConnectionId →
    stored.sourceConnectionId = loaded.sourceConnectionId
  config : new.config = loaded.config → stored.config = loaded.config
  warnThreshold : new.warnThreshold = loaded.warnThreshold →
    stored.warnThreshold = loaded.warnThreshold
  failThreshold : new.failThreshold = loaded.failThreshold →
    stored.failThreshold = loaded.failThreshold
  criticalThreshold : new.criticalThreshold = loaded.criticalThreshold →
    stored.criticalThreshold = loaded.criticalThreshold
  enabled : new.enabled = loaded.enabled → stored.enabled = loaded.enabled

/-- The newest snapshot is the check, and the versions are numbered from 1 without a gap. -/
structure NewestIsCheck (store : Store κ) : Prop where
  newest : ∀ row ∈ store.check, ∃ v ∈ store.versions,
    v.versionNo = store.latestVersionNo ∧ v.check = row
  numbered : store.versions.map (·.versionNo) = List.range' 1 store.versions.length

theorem column_eq_iff {β : Type} [DecidableEq β] {stored loaded new : β} :
    column stored loaded new = new ↔ (new = loaded → stored = loaded) := by
  unfold column
  by_cases h : new = loaded
  · subst h
    simp
  · simp [h]

theorem merge_eq_iff {stored loaded new : CheckRow κ} :
    merge stored loaded new = new ↔ Undisturbed stored loaded new := by
  have hfields : merge stored loaded new = new ↔
      column stored.name loaded.name new.name = new.name ∧
      column stored.kind loaded.kind new.kind = new.kind ∧
      column stored.engine loaded.engine new.engine = new.engine ∧
      column stored.expectationType loaded.expectationType new.expectationType =
        new.expectationType ∧
      column stored.dimension loaded.dimension new.dimension = new.dimension ∧
      column stored.sourceConnectionId loaded.sourceConnectionId new.sourceConnectionId =
        new.sourceConnectionId ∧
      column stored.config loaded.config new.config = new.config ∧
      column stored.warnThreshold loaded.warnThreshold new.warnThreshold = new.warnThreshold ∧
      column stored.failThreshold loaded.failThreshold new.failThreshold = new.failThreshold ∧
      column stored.criticalThreshold loaded.criticalThreshold new.criticalThreshold =
        new.criticalThreshold ∧
      column stored.enabled loaded.enabled new.enabled = new.enabled := by
    cases new
    simp [merge]
  rw [hfields]
  simp only [column_eq_iff]
  constructor
  · rintro ⟨h1, h2, h3, h4, h5, h6, h7, h8, h9, h10, h11⟩
    exact ⟨h1, h2, h3, h4, h5, h6, h7, h8, h9, h10, h11⟩
  · rintro ⟨h1, h2, h3, h4, h5, h6, h7, h8, h9, h10, h11⟩
    exact ⟨h1, h2, h3, h4, h5, h6, h7, h8, h9, h10, h11⟩

omit [DecidableEq κ] in
theorem latestVersionNo_of_numbered {store : Store κ}
    (h : store.versions.map (·.versionNo) = List.range' 1 store.versions.length) :
    store.latestVersionNo = store.versions.length := by
  unfold Store.latestVersionNo
  rw [h]
  cases hlen : store.versions.length with
  | zero => rfl
  | succ n =>
    have hmax : (List.range' 1 (n + 1)).max? = some (n + 1) := by
      rw [List.max?_eq_some_iff]
      refine ⟨by simp, fun b hb => ?_⟩
      have hle := List.mem_range'_1.mp hb
      omega
    rw [hmax]
    rfl

/-- The numbers run without a gap, no check means no version, and the last snapshot is the check. -/
structure Whole (store : Store κ) : Prop where
  numbered : store.versions.map (·.versionNo) = List.range' 1 store.versions.length
  created : store.check = none → store.versions = []
  last : ∀ row ∈ store.check, ∃ v, store.versions.getLast? = some v ∧ v.check = row

omit [DecidableEq κ] in
theorem versionNo_of_getLast? {store : Store κ}
    (h : store.versions.map (·.versionNo) = List.range' 1 store.versions.length)
    {v : CheckVersion κ} (hlast : store.versions.getLast? = some v) :
    v.versionNo = store.latestVersionNo := by
  obtain ⟨init, hinit⟩ := List.getLast?_eq_some_iff.mp hlast
  rw [latestVersionNo_of_numbered h]
  rw [hinit, List.map_append, List.length_append, List.length_singleton, List.range'_concat,
    List.map_singleton] at h
  have hno := (List.append_inj' h rfl).2
  rw [hinit, List.length_append, List.length_singleton]
  simpa [Nat.add_comm] using hno

omit [DecidableEq κ] in
theorem Whole.newestIsCheck {store : Store κ} (h : Whole store) : NewestIsCheck store := by
  refine ⟨fun row hrow => ?_, h.numbered⟩
  obtain ⟨v, hlast, hv⟩ := h.last row hrow
  exact ⟨v, List.mem_of_getLast? hlast, versionNo_of_getLast? h.numbered hlast, hv⟩

omit [DecidableEq κ] in
theorem whole_append {store : Store κ} (h : Whole store) {row : CheckRow κ} :
    Whole ⟨some row, store.versions ++ [⟨store.latestVersionNo + 1, row, false⟩]⟩ := by
  refine ⟨?_, fun hnone => ?_, fun row' hrow => ?_⟩
  · rw [latestVersionNo_of_numbered h.numbered, List.map_append, h.numbered, List.length_append,
      List.length_singleton, List.range'_concat]
    simp [Nat.add_comm]
  · cases hnone
  · cases hrow
    exact ⟨_, List.getLast?_concat, rfl⟩

/-! ## What a statement can do -/

/-- What a statement makes of the store. -/
inductive Effect (kept : κ → κ) (store : Store κ) (statement : Statement κ) (pc : Pc κ) :
    Store κ → Prop
  | none : Effect kept store statement pc store
  | created (row : CheckRow κ) (hfree : store.check = .none) :
      Effect kept store statement pc
        ⟨some row, store.versions ++ [⟨store.latestVersionNo + 1, row, false⟩]⟩
  | redacted (versionNo : ℕ) (hold : versionNo ≠ store.latestVersionNo) :
      Effect kept store statement pc (store.redact kept versionNo)
  | written (row new : CheckRow κ) (versionNo : ℕ) (hcommit : statement = .commit)
      (hpc : (pc = .planned row new ∧ new ≠ row ∧ versionNo = store.latestVersionNo + 1) ∨
        (pc = .numbered row new versionNo ∧ versionNo ∉ store.versions.map (·.versionNo))) :
      Effect kept store statement pc (store.write row new versionNo)

theorem act_effect {kept : κ → κ} {statement : Statement κ} {store : Store κ} {pc : Pc κ}
    {out : Store κ × Pc κ} (h : act kept statement store pc = some out) :
    Effect kept store statement pc out.1 ∧
      (out.2.holdsRow = true → out.1 = store ∧ (pc.holdsRow = true ∨ store.check ≠ none)) ∧
      ∀ row new versionNo, out.2 = .numbered row new versionNo →
        versionNo = store.latestVersionNo + 1 := by
  unfold act at h
  split at h
  · next row =>
    split at h
    · next hfree =>
      cases h
      exact ⟨.created row hfree, by simp [Pc.holdsRow], by simp⟩
    · cases h
  · next versionNo =>
    split at h
    · cases h
      exact ⟨.none, by simp [Pc.holdsRow], by simp⟩
    · next hno =>
      cases h
      exact ⟨.redacted versionNo fun heq => hno (.inr (.inr heq)), by simp [Pc.holdsRow], by simp⟩
  · cases h
  · cases h
  · split at h
    · cases h
      exact ⟨.none, by simp [Pc.holdsRow], by simp⟩
    · next hrow =>
      cases h
      exact ⟨.none, fun _ => ⟨rfl, .inr (by simp [hrow])⟩, by simp⟩
  · split at h
    · cases h
      exact ⟨.none, by simp [Pc.holdsRow], by simp⟩
    · cases h
      exact ⟨.none, fun _ => ⟨rfl, .inl rfl⟩, by simp⟩
  · split at h
    · cases h
    · cases h
      refine ⟨.none, fun _ => ⟨rfl, .inl rfl⟩, fun row new versionNo hpc => ?_⟩
      cases hpc
      rfl
  · next row new =>
    split at h
    · cases h
      exact ⟨.none, by simp [Pc.holdsRow], by simp⟩
    · next hne =>
      cases h
      exact ⟨.written row new _ rfl (.inl ⟨rfl, hne, rfl⟩), by simp [Pc.holdsRow], by simp⟩
  · next row new versionNo =>
    split at h
    · cases h
      exact ⟨.none, by simp [Pc.holdsRow], by simp⟩
    · next hfree =>
      cases h
      exact ⟨.written row new versionNo rfl (.inr ⟨rfl, hfree⟩), by simp [Pc.holdsRow], by simp⟩
  · cases h
  · cases h
  · cases h
    exact ⟨.none, by simp [Pc.holdsRow], by simp⟩
  · cases h

omit [DecidableEq κ] in
theorem redact_numbers (kept : κ → κ) (store : Store κ) (versionNo : ℕ) :
    (store.redact kept versionNo).versions.map (·.versionNo) = store.versions.map (·.versionNo) := by
  rw [Store.redact, List.map_map]
  apply List.map_congr_left
  intro v _
  show (if v.versionNo = versionNo ∧ v.redacted = false then _ else v).versionNo = v.versionNo
  split <;> rfl

omit [DecidableEq κ] in
theorem redact_whole {kept : κ → κ} {store : Store κ} (h : Whole store) {versionNo : ℕ}
    (hold : versionNo ≠ store.latestVersionNo) : Whole (store.redact kept versionNo) := by
  refine ⟨?_, fun hnone => ?_, fun row hrow => ?_⟩
  · rw [redact_numbers, h.numbered, Store.redact, List.length_map]
  · rw [Store.redact, h.created hnone]
    rfl
  · obtain ⟨v, hlast, hv⟩ := h.last row hrow
    refine ⟨v, ?_, hv⟩
    rw [Store.redact, List.getLast?_map, hlast, Option.map_some, if_neg]
    rintro ⟨heq, -⟩
    exact hold (heq.symm.trans (versionNo_of_getLast? h.numbered hlast))

theorem write_whole {store : Store κ} (h : Whole store) {row new : CheckRow κ}
    (hcheck : ∀ stored ∈ store.check, Undisturbed stored row new) (hcreated : store.check ≠ none) :
    Whole (store.write row new (store.latestVersionNo + 1)) := by
  obtain ⟨stored, hstored⟩ := Option.ne_none_iff_exists'.mp hcreated
  have hrow : (store.check.map fun stored => merge stored row new) = some new := by
    rw [hstored, Option.map_some, merge_eq_iff.mpr (hcheck stored hstored)]
  have hwritten : store.write row new (store.latestVersionNo + 1) =
      ⟨some new, store.versions ++ [⟨store.latestVersionNo + 1, new, false⟩]⟩ := by
    rw [Store.write, hrow]
  rw [hwritten]
  exact whole_append h

/-- The next version is the check exactly where the copy it is taken of was undisturbed. -/
theorem write_newest_iff {store : Store κ} (h : Whole store) {stored row new : CheckRow κ}
    (hstored : store.check = some stored) :
    NewestIsCheck (store.write row new (store.latestVersionNo + 1)) ↔
      Undisturbed stored row new := by
  have hcheck : (store.write row new (store.latestVersionNo + 1)).check =
      some (merge stored row new) := by
    rw [Store.write, hstored]
    rfl
  constructor
  · intro hnewest
    obtain ⟨v, hv, hno, hrow⟩ := hnewest.newest _ hcheck
    have hlatest := latestVersionNo_of_numbered hnewest.numbered
    rw [hlatest, Store.write, List.length_append, List.length_singleton] at hno
    rw [Store.write] at hv
    rcases List.mem_append.mp hv with hold | hlast
    · have hmem : v.versionNo ∈ store.versions.map (·.versionNo) := List.mem_map_of_mem hold
      rw [h.numbered, List.mem_range'_1] at hmem
      omega
    · rw [List.mem_singleton.mp hlast] at hrow
      exact merge_eq_iff.mp hrow.symm
  · intro hundisturbed
    refine (write_whole h (fun s hs => ?_) (by rw [hstored]; simp)).newestIsCheck
    rw [hstored, Option.mem_def, Option.some.injEq] at hs
    exact hs ▸ hundisturbed

/-! ## Runs -/

variable {ι : Type} [DecidableEq ι]

/-- A request that commits finds the columns that it leaves alone as it loaded them. -/
def FindsUndisturbed (c : Config ι (Store κ) (Pc κ)) (e : ι × Statement κ) : Prop :=
  match e.2, c.session e.1 with
  | .commit, .planned row new =>
    new = row ∨ ∀ stored ∈ c.store.check, Undisturbed stored row new
  | .commit, .numbered row new versionNo =>
    versionNo ∈ c.store.versions.map (·.versionNo) ∨
      ∀ stored ∈ c.store.check, Undisturbed stored row new
  | _, _ => True

instance (stored loaded new : CheckRow κ) : Decidable (Undisturbed stored loaded new) :=
  decidable_of_iff (merge stored loaded new = new) merge_eq_iff

omit [DecidableEq ι] in
instance decidableFindsUndisturbed (c : Config ι (Store κ) (Pc κ)) (e : ι × Statement κ) :
    Decidable (FindsUndisturbed c e) := by
  unfold FindsUndisturbed
  split <;> infer_instance

/-- A whole store, and what is known of the requests on it. -/
structure Inv (c : Config ι (Store κ) (Pc κ)) : Prop where
  whole : Whole c.store
  created : ∀ i, (c.session i).holdsRow = true → c.store.check ≠ none
  number : ∀ i row new versionNo, c.session i = .numbered row new versionNo →
    1 ≤ versionNo ∧ versionNo ≤ c.store.versions.length + 1

omit [DecidableEq κ] in
theorem free_number {store : Store κ}
    (h : store.versions.map (·.versionNo) = List.range' 1 store.versions.length) {versionNo : ℕ}
    (hpos : 1 ≤ versionNo) (hle : versionNo ≤ store.versions.length + 1)
    (hfree : versionNo ∉ store.versions.map (·.versionNo)) :
    versionNo = store.latestVersionNo + 1 := by
  rw [latestVersionNo_of_numbered h]
  rw [h, List.mem_range'_1] at hfree
  omega

omit [DecidableEq ι] in
theorem effect_whole {kept : κ → κ} {c : Config ι (Store κ) (Pc κ)} {e : ι × Statement κ}
    {store : Store κ} (h : Inv c) (hfresh : FindsUndisturbed c e)
    (heffect : Effect kept c.store e.2 (c.session e.1) store) : Whole store := by
  cases heffect with
  | none => exact h.whole
  | created row hfree => exact whole_append h.whole
  | redacted versionNo hold => exact redact_whole h.whole hold
  | written row new versionNo hcommit hpc =>
    unfold FindsUndisturbed at hfresh
    rw [hcommit] at hfresh
    rcases hpc with ⟨hpc, hne, rfl⟩ | ⟨hpc, hfree⟩
    · rw [hpc] at hfresh
      have hcreated := h.created e.1 (by rw [hpc]; rfl)
      exact write_whole h.whole (hfresh.resolve_left hne) hcreated
    · rw [hpc] at hfresh
      have hcreated := h.created e.1 (by rw [hpc]; rfl)
      obtain ⟨hpos, hle⟩ := h.number e.1 row new versionNo hpc
      rw [free_number h.whole.numbered hpos hle hfree]
      exact write_whole h.whole (hfresh.resolve_left hfree) hcreated

theorem effect_grows {kept : κ → κ} {store after : Store κ} {statement : Statement κ} {pc : Pc κ}
    (heffect : Effect kept store statement pc after) :
    store.versions.length ≤ after.versions.length ∧ (store.check ≠ none → after.check ≠ none) := by
  cases heffect with
  | none => exact ⟨le_refl _, id⟩
  | created row hfree => simp
  | redacted versionNo hold => simp [Store.redact]
  | written row new versionNo hcommit hpc => simp [Store.write]

theorem step_inv {kept : κ → κ} {c d : Config ι (Store κ) (Pc κ)} {e : ι × Statement κ}
    (h : Inv c) (hfresh : FindsUndisturbed c e)
    (hstep : Interleaving.step (act kept) c e = some d) : Inv d := by
  obtain ⟨⟨store, pc⟩, hact, rfl⟩ := step_eq_some.mp hstep
  obtain ⟨heffect, hholds, hnumber⟩ := act_effect hact
  obtain ⟨hgrows, hkeeps⟩ := effect_grows heffect
  refine ⟨effect_whole h hfresh heffect, fun i hi => ?_, fun i row new versionNo hi => ?_⟩
  · by_cases hself : i = e.1
    · subst hself
      rw [Config.put_session_self] at hi
      obtain ⟨hsame, hrow⟩ := hholds hi
      exact hkeeps (hrow.elim (h.created e.1) id)
    · rw [Config.put_session_ne c _ hself] at hi
      exact hkeeps (h.created i hi)
  · by_cases hself : i = e.1
    · subst hself
      rw [Config.put_session_self] at hi
      rw [hnumber row new versionNo hi, latestVersionNo_of_numbered h.whole.numbered]
      rw [Config.put_store]
      omega
    · rw [Config.put_session_ne c _ hself] at hi
      obtain ⟨hpos, hle⟩ := h.number i row new versionNo hi
      rw [Config.put_store]
      omega

/-- The requests before any of them has begun, and before the check is there. -/
def beginning (requests : ι → Request κ) : Config ι (Store κ) (Pc κ) :=
  ⟨⟨none, []⟩, fun i => .waiting (requests i)⟩

omit [DecidableEq κ] [DecidableEq ι] in
theorem beginning_inv (requests : ι → Request κ) : Inv (beginning requests) := by
  refine ⟨⟨rfl, fun _ => rfl, fun row hrow => ?_⟩, fun i hi => ?_, fun i row new versionNo hi => ?_⟩
  · cases hrow
  · cases hi
  · cases hi

/-- A check, a request that renames it, and one that sets its threshold. -/
def rowCount : CheckRow ℕ :=
  ⟨"rows", "volume", "gx", "volume", none, none, 0, none, some 5, none, true⟩

def rename : CheckPatch ℕ := ⟨some "row count", none, none, none, none, none, none, none, none, none⟩

def requests : Fin 3 → Request ℕ
  | 0 => .create rowCount
  | 1 => .update rename
  | 2 => .setThresholds (some (some 1)) none none

/-- Rules that merge what is sent and accept every outcome. -/
def lenient : Rules ℕ where
  settle row config warn fail critical :=
    some (config.getD row.config, warn.getD row.warnThreshold, fail.getD row.failThreshold,
      critical.getD row.criticalThreshold)
  admits _ _ _ := true

def oneByOne : List (Fin 3 × Statement ℕ) :=
  [(0, .commit), (1, .load), (1, .plan lenient), (1, .readVersion), (1, .commit), (2, .load),
    (2, .plan lenient), (2, .readVersion), (2, .commit)]

def sideBySide : List (Fin 3 × Statement ℕ) :=
  [(0, .commit), (1, .load), (2, .load), (1, .plan lenient), (1, .readVersion), (1, .commit),
    (2, .plan lenient), (2, .readVersion), (2, .commit)]

end DataQ.Checks
