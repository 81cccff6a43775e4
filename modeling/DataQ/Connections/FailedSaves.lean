import DataQ.Connections.Saves

/-! # What a failed save leaves behind

The row comes back with the transaction, the entries of the secret store do not: a failed update
or re-authentication leaves everything as it was exactly when no credential it had written replaced
another in an entry the row names. -/

namespace DataQ.Connections.Saves
set_option autoImplicit false

/-! ## A sequence of writes to a store -/

def writeAll (store : SecretStore) (writes : List (Text × Text)) : SecretStore :=
  writes.foldl (fun store write => store.set write.1 write.2) store

/-- The last value a sequence of writes gives an entry. -/
def lastWritten : List (Text × Text) → Text → Option Text
  | [], _ => none
  | (name, value) :: writes, ref =>
    (lastWritten writes ref).or (if ref = name then some value else none)

theorem writeAll_apply (store : SecretStore) (writes : List (Text × Text)) (ref : Text) :
    writeAll store writes ref = (lastWritten writes ref).or (store ref) := by
  induction writes generalizing store with
  | nil => rfl
  | cons write writes ih =>
    have hset : store.set write.1 write.2 ref =
        (if ref = write.1 then some write.2 else none).or (store ref) := by
      by_cases h : ref = write.1
      · rw [h, set_self, if_pos rfl, Option.some_or]
      · rw [set_ne _ _ h, if_neg h, Option.none_or]
    calc writeAll store (write :: writes) ref
        = (lastWritten writes ref).or (store.set write.1 write.2 ref) := ih _
      _ = (lastWritten (write :: writes) ref).or (store ref) := by
        rw [hset, ← Option.or_assoc, lastWritten]

theorem writeAll_append (store : SecretStore) (writes writes' : List (Text × Text)) :
    writeAll store (writes ++ writes') = writeAll (writeAll store writes) writes' :=
  List.foldl_append

/-- Some entry that a row names is left with another value. -/
def Overwrites (row : Row) (store : SecretStore) (writes : List (Text × Text)) : Prop :=
  ∃ ref ∈ row.references, ∃ value, lastWritten writes ref = some value ∧ store ref ≠ some value

theorem writeAll_keeps_iff (row : Row) (store : SecretStore) (writes : List (Text × Text)) :
    (∀ ref ∈ row.references, writeAll store writes ref = store ref) ↔
      ¬ Overwrites row store writes := by
  constructor
  · rintro h ⟨ref, hmem, value, hlast, hne⟩
    have hkept := h ref hmem
    rw [writeAll_apply, hlast, Option.some_or] at hkept
    exact hne hkept.symm
  · intro h ref hmem
    rw [writeAll_apply]
    cases hlast : lastWritten writes ref with
    | none => rfl
    | some value =>
      have hsame : store ref = some value := by
        by_contra hne
        exact h ⟨ref, hmem, value, hlast, hne⟩
      rw [hsame, Option.some_or]

/-! ## The writes that land -/

section Writes
variable (services : Services) (answers : Answers)

def landedSecret (secret : Option Text) (row : Row) : List (Text × Text) :=
  match secret with
  | none => []
  | some value =>
    if answers.secretWritten then [(row.primaryRef services.nfkd, value)] else []

/-- The primary credential is only written where the catalog one was. -/
def landedSecrets (catalogSecret secret : Option Text) (row : Row) : List (Text × Text) :=
  match catalogSecret with
  | none => landedSecret services answers secret row
  | some value =>
    if answers.catalogWritten then
      (row.catalogRef services.nfkd, value) :: landedSecret services answers secret row
    else []

/-- Every credential of a request is taken by the store. -/
def taken (answers : Answers) (catalogSecret secret : Option Text) : Bool :=
  (catalogSecret.isNone || answers.catalogWritten) && (secret.isNone || answers.secretWritten)

def Row.withSecrets (catalogSecret secret : Option Text) (row : Row) : Row :=
  let row := if catalogSecret.isSome then row.withCatalogRef services.nfkd else row
  match secret with
  | none => row
  | some value => row.withSecretRef services answers value

end Writes

variable {services : Services} {answers : Answers}

theorem writeSecret_some {secret : Option Text} {row row' : Row} {store store' : SecretStore}
    (h : writeSecret services answers secret row store = some (row', store')) :
    row' = row.withSecrets services answers none secret ∧
      store' = writeAll store (landedSecret services answers secret row) ∧
      taken answers none secret = true := by
  cases secret with
  | none =>
    cases h
    exact ⟨rfl, rfl, rfl⟩
  | some value =>
    rw [writeSecret] at h
    split at h
    · next hwritten =>
      cases h
      exact ⟨rfl, by rw [landedSecret, if_pos hwritten]; rfl, by simp [taken, hwritten]⟩
    · cases h

theorem writeSecret_none {secret : Option Text} {row : Row} {store : SecretStore}
    (h : writeSecret services answers secret row store = none) :
    landedSecret services answers secret row = [] ∧ taken answers none secret = false := by
  cases secret with
  | none => cases h
  | some value =>
    rw [writeSecret] at h
    split at h
    · cases h
    · next hrefused =>
      exact ⟨by rw [landedSecret, if_neg hrefused], by simpa [taken] using hrefused⟩

theorem writeCatalogSecret_some {catalogSecret : Option Text} {row row' : Row}
    {store store' : SecretStore} (secret : Option Text)
    (h : writeCatalogSecret services answers catalogSecret row store = some (row', store')) :
    row'.withSecrets services answers none secret =
        row.withSecrets services answers catalogSecret secret ∧
      writeAll store' (landedSecret services answers secret row') =
        writeAll store (landedSecrets services answers catalogSecret secret row) ∧
      taken answers none secret = taken answers catalogSecret secret := by
  cases catalogSecret with
  | none =>
    cases h
    exact ⟨rfl, rfl, rfl⟩
  | some value =>
    rw [writeCatalogSecret] at h
    split at h
    · next hwritten =>
      cases h
      refine ⟨by cases secret <;> rfl, ?_, by simp [taken, hwritten]⟩
      -- The reference of the primary credential does not depend on the config.
      have hrest : landedSecret services answers secret (row.withCatalogRef services.nfkd) =
          landedSecret services answers secret row := by
        cases secret <;> rfl
      rw [hrest, landedSecrets, if_pos hwritten]
      rfl
    · cases h

theorem writeCatalogSecret_none {catalogSecret : Option Text} {row : Row} {store : SecretStore}
    (secret : Option Text)
    (h : writeCatalogSecret services answers catalogSecret row store = none) :
    landedSecrets services answers catalogSecret secret row = [] ∧
      taken answers catalogSecret secret = false := by
  cases catalogSecret with
  | none => cases h
  | some value =>
    rw [writeCatalogSecret] at h
    split at h
    · cases h
    · next hrefused =>
      exact ⟨by rw [landedSecrets, if_neg hrefused], by simp [taken, hrefused]⟩

/-! ## The outcome of a save -/

/-- What follows the vetting of a request: the store holds the writes that landed, the row is the
new one exactly where the commit went through, and the call raises unless all of it did. -/
structure Outcome (answers : Answers) (world : World) (result : Option SaveError × World)
    (writes : List (Text × Text)) (commits : Prop) (saved : Row) : Prop where
  store_eq : result.2.store = writeAll world.store writes
  committed : commits → result.2.row = saved
  rolledBack : ¬ commits → result.2.row = world.row
  raises : result.1.isSome ↔ ¬ (commits ∧ answers.settled = true)

/-- The commit is reached and goes through. -/
def UpdateCommits (answers : Answers) (world : World) (update : Update) : Prop :=
  taken answers update.catalogSecret update.secret = true ∧
    (update.name.getD world.row.name, world.row.env) ∉ world.others ∧ answers.committed = true

/-- The row an update commits. -/
def savedRow (services : Services) (answers : Answers) (world : World) (update : Update)
    (vetted : Vetted) : Row :=
  ((world.row.edited update vetted).withSecrets services answers update.catalogSecret
    update.secret).settled answers update vetted

theorem withSecrets_key (catalogSecret secret : Option Text) (row : Row) :
    ((row.withSecrets services answers catalogSecret secret).name,
      (row.withSecrets services answers catalogSecret secret).env) = (row.name, row.env) := by
  unfold Row.withSecrets
  cases catalogSecret <;> cases secret <;> rfl

theorem savedRow_key (world : World) (update : Update) (vetted : Vetted) :
    ((savedRow services answers world update vetted).name,
      (savedRow services answers world update vetted).env) =
      (update.name.getD world.row.name, world.row.env) := by
  have hsettled := core_settled answers ((world.row.edited update vetted).withSecrets services
    answers update.catalogSecret update.secret) update vetted
  have hedited := core_edited world.row update vetted
  calc ((savedRow services answers world update vetted).name,
        (savedRow services answers world update vetted).env)
      = (((world.row.edited update vetted).withSecrets services answers update.catalogSecret
            update.secret).name,
          ((world.row.edited update vetted).withSecrets services answers update.catalogSecret
            update.secret).env) :=
        congrArg (fun core => (core.1.name, core.1.env)) hsettled
    _ = ((world.row.edited update vetted).name, (world.row.edited update vetted).env) :=
        withSecrets_key _ _ _
    _ = (update.name.getD world.row.name, world.row.env) :=
        congrArg (fun core => (core.1.name, core.1.env)) hedited

theorem updateConnection_refused {world : World} {update : Update} {e : SaveError}
    (h : vetUpdate services answers world update = .error e) :
    updateConnection services answers world update = (some e, world) := by
  rw [updateConnection, h]

theorem commitUpdate_outcome (answers : Answers) (world : World) (row : Row)
    (writes : List (Text × Text)) :
    Outcome answers world (commitUpdate answers world row (writeAll world.store writes)) writes
      ((row.name, row.env) ∉ world.others ∧ answers.committed = true) row := by
  unfold commitUpdate
  by_cases hfree : (row.name, row.env) ∈ world.others
  · rw [if_pos hfree]
    exact ⟨rfl, fun h => absurd hfree h.1, fun _ => rfl, by simp [hfree]⟩
  · rw [if_neg hfree]
    cases hcommitted : answers.committed with
    | false => exact ⟨rfl, fun h => absurd h.2 Bool.false_ne_true, fun _ => rfl, by simp⟩
    | true =>
      refine ⟨rfl, fun _ => rfl, fun h => absurd ⟨hfree, rfl⟩ h, ?_⟩
      cases hsettled : answers.settled <;> simp [hfree]

theorem updateConnection_outcome {world : World} {update : Update} {vetted : Vetted}
    (h : vetUpdate services answers world update = .ok vetted) :
    Outcome answers world (updateConnection services answers world update)
      (landedSecrets services answers update.catalogSecret update.secret
        (world.row.edited update vetted))
      (UpdateCommits answers world update) (savedRow services answers world update vetted) := by
  have hkey : ((savedRow services answers world update vetted).name,
      (savedRow services answers world update vetted).env) = _ := savedRow_key world update vetted
  rw [updateConnection, h]
  simp only
  cases hcatalog : writeCatalogSecret services answers update.catalogSecret
      (world.row.edited update vetted) world.store with
  | none =>
    obtain ⟨hlanded, htaken⟩ := writeCatalogSecret_none update.secret hcatalog
    have hfails : ¬ UpdateCommits answers world update := by simp [UpdateCommits, htaken]
    exact ⟨by rw [hlanded]; rfl, fun h => absurd h hfails, fun _ => rfl, by simp [hfails]⟩
  | some written =>
    obtain ⟨row, store⟩ := written
    obtain ⟨hrow, hstore, htaken⟩ := writeCatalogSecret_some update.secret hcatalog
    simp only
    cases hsecret : writeSecret services answers update.secret row store with
    | none =>
      obtain ⟨hlanded, hrefused⟩ := writeSecret_none hsecret
      rw [hlanded] at hstore
      have hfails : ¬ UpdateCommits answers world update := by
        simp [UpdateCommits, ← htaken, hrefused]
      exact ⟨hstore, fun h => absurd h hfails, fun _ => rfl, by simp [hfails]⟩
    | some result =>
      obtain ⟨row', store'⟩ := result
      obtain ⟨hresult, hwritten, htook⟩ := writeSecret_some hsecret
      have hsaved : row'.settled answers update vetted =
          savedRow services answers world update vetted := by
        rw [savedRow, hresult, hrow]
      have hcommits : UpdateCommits answers world update ↔
          (update.name.getD world.row.name, world.row.env) ∉ world.others ∧
            answers.committed = true := by
        rw [UpdateCommits, ← htaken, htook]
        simp
      have hcommit := commitUpdate_outcome answers world
        (savedRow services answers world update vetted) (landedSecrets services answers
          update.catalogSecret update.secret (world.row.edited update vetted))
      rw [hkey, ← hcommits] at hcommit
      simp only [hsaved, hwritten.trans hstore]
      exact hcommit

/-! ## When a failure leaves nothing behind -/

/-- The row and every entry it names are as they were. -/
def Kept (before after : World) : Prop :=
  after.row = before.row ∧ ∀ ref ∈ before.row.references, after.store ref = before.store ref

theorem Outcome.kept_iff {world : World} {result : Option SaveError × World}
    {writes : List (Text × Text)} {commits : Prop} {saved : Row}
    (h : Outcome answers world result writes commits saved) :
    Kept world result.2 ↔
      ¬ Overwrites world.row world.store writes ∧ (commits → saved = world.row) := by
  rw [Kept, h.store_eq, writeAll_keeps_iff, and_comm]
  refine and_congr_right fun _ => ?_
  by_cases hcommits : commits
  · rw [h.committed hcommits]
    simp [hcommits]
  · rw [h.rolledBack hcommits]
    simp [hcommits]

/-- An update that gets past its checks and its test and fails later has replaced no credential
that the stored row names, and where it fails behind the commit, has changed nothing of the row. -/
def UpdateFailsClean (services : Services) (answers : Answers) (world : World)
    (update : Update) : Prop :=
  ∀ vetted, vetUpdate services answers world update = .ok vetted →
    ¬ (UpdateCommits answers world update ∧ answers.settled = true) →
    ¬ Overwrites world.row world.store (landedSecrets services answers update.catalogSecret
        update.secret (world.row.edited update vetted)) ∧
      (UpdateCommits answers world update →
        savedRow services answers world update vetted = world.row)

def ReauthFailsClean (services : Services) (answers : Answers) (world : World)
    (connectionId secret : Text) (skipTest : Bool) : Prop :=
  vetReauth answers world connectionId secret skipTest = .ok () →
    ¬ (answers.secretWritten = true ∧ answers.committed = true) →
    ¬ Overwrites world.row world.store (landedSecret services answers (some secret) world.row)

theorem update_kept_iff (world : World) (update : Update) :
    ((updateConnection services answers world update).1.isSome →
        Kept world (updateConnection services answers world update).2) ↔
      UpdateFailsClean services answers world update := by
  unfold UpdateFailsClean
  cases hvet : vetUpdate services answers world update with
  | error e =>
    rw [updateConnection_refused hvet]
    simp [Kept]
  | ok vetted =>
    have houtcome := updateConnection_outcome hvet
    rw [houtcome.raises, houtcome.kept_iff]
    simp

theorem reauthConnection_outcome (services : Services) {world : World}
    {connectionId secret : Text} {skipTest : Bool}
    (h : vetReauth answers world connectionId secret skipTest = .ok ()) :
    Outcome { answers with settled := true } world
      (reauthConnection services answers world connectionId secret skipTest)
      (landedSecret services answers (some secret) world.row)
      (answers.secretWritten = true ∧ answers.committed = true)
      ((world.row.withSecretRef services answers secret).applyTestOutcome answers (!skipTest)
        true) := by
  rw [reauthConnection, h]
  simp only
  cases hsecret : writeSecret services answers (some secret) world.row world.store with
  | none =>
    obtain ⟨hlanded, hrefused⟩ := writeSecret_none hsecret
    have hfails : answers.secretWritten = false := by simpa [taken] using hrefused
    exact ⟨by rw [hlanded]; rfl, by simp [hfails], fun _ => rfl, by simp [hfails]⟩
  | some result =>
    obtain ⟨row, store⟩ := result
    obtain ⟨rfl, rfl, htook⟩ := writeSecret_some hsecret
    have hwritten : answers.secretWritten = true := by simpa [taken] using htook
    cases hcommitted : answers.committed with
    | false => exact ⟨rfl, by simp, fun _ => rfl, by simp⟩
    | true => exact ⟨rfl, fun _ => rfl, fun h => absurd ⟨hwritten, rfl⟩ h, by simp [hwritten]⟩

theorem reauth_kept_iff (world : World) (connectionId secret : Text) (skipTest : Bool) :
    ((reauthConnection services answers world connectionId secret skipTest).1.isSome →
        Kept world (reauthConnection services answers world connectionId secret skipTest).2) ↔
      ReauthFailsClean services answers world connectionId secret skipTest := by
  unfold ReauthFailsClean
  cases hvet : vetReauth answers world connectionId secret skipTest with
  | error e =>
    rw [reauthConnection, hvet]
    simp [Kept]
  | ok _ =>
    have houtcome := reauthConnection_outcome services hvet
    rw [houtcome.raises, houtcome.kept_iff]
    simp only [true_implies, and_true]
    exact forall_congr' fun hfails => and_iff_left fun hcommits => absurd hcommits hfails

/-- **When a failed save changes nothing**, for every connection, request and point of failure. -/
theorem failed_save_kept_iff (services : Services) (answers : Answers) (world : World) :
    (∀ update : Update,
      ((updateConnection services answers world update).1.isSome →
          Kept world (updateConnection services answers world update).2) ↔
        UpdateFailsClean services answers world update) ∧
    ∀ (connectionId secret : Text) (skipTest : Bool),
      ((reauthConnection services answers world connectionId secret skipTest).1.isSome →
          Kept world (reauthConnection services answers world connectionId secret skipTest).2) ↔
        ReauthFailsClean services answers world connectionId secret skipTest :=
  ⟨update_kept_iff world, reauth_kept_iff world⟩

/-- A PostgreSQL connection that is renamed to a taken name while its password is rotated. -/
theorem conflict_keeps_rotated_password :
    ¬ ∀ (services : Services) (answers : Answers) (world : World) (update : Update),
      (updateConnection services answers world update).1.isSome →
        Kept world (updateConnection services answers world update).2 := by
  intro h
  let ref : Text := "conn-postgres-sales-dev-1f2e3d4c".toList
  let sales : Creation := {
    id := "1f2e3d4c".toList, name := "Sales".toList, connType := "postgres".toList
    env := "dev".toList
    config := [("host".toList, textValue "db.internal"), ("database".toList, textValue "sales"),
      ("user".toList, textValue "dataq")] }
  let world : World := {
    row := { sales.row with secretRef := some ref }
    others := [("Orders".toList, "dev".toList)]
    store := fun name => if name = ref then some "old".toList else none }
  have hkept := h plainServices {} world
    { connectionId := sales.id, name := some "Orders".toList, secret := some "new".toList }
    (by decide)
  have hvalue := hkept.2 ref (by decide)
  revert hvalue
  decide

end DataQ.Connections.Saves
