import DataQ.Connections.Settled
import DataQ.Foundations.Transition

/-! # A credential is only sent where it was meant to go

Whole histories of successful saves of one connection: every credential its config presents was
supplied in a request whose config had the same destination for it. -/

namespace DataQ.Connections.Saves
open DataQ.Transition
set_option autoImplicit false

variable {v : Validators} {services : Services} {answers : Answers}

/-! ## Histories of one connection -/

/-- A credential a request supplied, with the config that request resulted in. -/
structure Supply where
  value : Text
  config : Fields

structure History where
  world : World
  supplied : List Supply

inductive Request
  | update (edit : Update)
  | reauth (connectionId secret : Text) (skipTest : Bool)

/-- The credentials a request supplies. -/
def Request.values : Request → List Text
  | .update edit => edit.catalogSecret.toList ++ edit.secret.toList
  | .reauth _ secret _ => [secret]

def Request.save (services : Services) (answers : Answers) (world : World) :
    Request → Option SaveError × World
  | .update edit => updateConnection services answers world edit
  | .reauth connectionId secret skipTest =>
    reauthConnection services answers world connectionId secret skipTest

def supplies (values : List Text) (config : Fields) : List Supply :=
  values.map fun value => ⟨value, config⟩

/-- One successful request; a request that fails is none. -/
def History.step (services : Services) (h : History) (event : Answers × Request) :
    Option History :=
  let result := event.2.save services event.1 h.world
  if result.1.isSome then none
  else some ⟨result.2, h.supplied ++ supplies event.2.values result.2.row.config⟩

/-- The history of a connection that was just created. -/
def History.created (services : Services) (answers : Answers) (others : List (Text × Text))
    (store : SecretStore) (new : Creation) : Option History :=
  match createConnection services answers others store new with
  | (none, some row, store) =>
    some ⟨⟨row, others, store⟩,
      supplies (new.secret.toList ++ new.catalogSecret.toList) row.config⟩
  | _ => none

/-- A value was supplied for where the row would send it now. -/
def MeantFor (v : Validators) (slot : Text) (supplied : List Supply) (row : Row)
    (value : Text) : Prop :=
  ∃ supply ∈ supplied, supply.value = value ∧
    SameDestination v row.connType slot supply.config row.config

instance (v : Validators) (connType slot : Text) (config config' : Fields) :
    Decidable (SameDestination v connType slot config config') :=
  inferInstanceAs (Decidable (∀ f ∈ slotFields connType slot, _ = _))

instance (v : Validators) (slot : Text) (supplied : List Supply) (row : Row) (value : Text) :
    Decidable (MeantFor v slot supplied row value) :=
  inferInstanceAs (Decidable (∃ supply ∈ supplied, _ ∧ _))

def presentedSecret (v : Validators) (world : World) : Option Text :=
  if secretSent world.row.connType (withConfigDefaults v world.row.connType world.row.config) then
    world.row.secretRef.bind world.store
  else none

def presentedCatalog (world : World) : Option Text :=
  (catalogRef? world.row.config).bind world.store

def SentWhereMeant (v : Validators) (h : History) : Prop :=
  (∀ value, presentedSecret v h.world = some value →
    MeantFor v secretField h.supplied h.world.row value) ∧
  ∀ value, presentedCatalog h.world = some value →
    MeantFor v catalog h.supplied h.world.row value

/-- A dbt connection's stored secret stays where it is, is supplied again, or is left unsent. -/
def Resupplies (v : Validators) (row : Row) : Request → Prop
  | .reauth _ _ _ => True
  | .update edit =>
    match edit.config with
    | none => True
    | some config =>
      let effective := carryOverSecretNameKeys row.config config
      row.connType = "dbt".toList → edit.secret = none → row.secretRef.isSome →
        SameDestination v row.connType secretField row.config effective ∨
          secretSent row.connType (withConfigDefaults v row.connType effective) = false

theorem meant_of_written (supplied : List Supply) {slot : Text} {row : Row} {values : List Text}
    {value : Text} (h : value ∈ values) :
    MeantFor v slot (supplied ++ supplies values row.config) row value := by
  refine ⟨⟨value, row.config⟩, ?_, rfl, .refl v row.connType slot row.config⟩
  exact List.mem_append_right _ (List.mem_map_of_mem h)

theorem meant_of_kept {slot : Text} {supplied more : List Supply} {row row' : Row} {value : Text}
    (htype : row'.connType = row.connType)
    (hsame : SameDestination v row.connType slot row.config row'.config)
    (h : MeantFor v slot supplied row value) : MeantFor v slot (supplied ++ more) row' value := by
  obtain ⟨supply, hmem, hvalue, hmeant⟩ := h
  refine ⟨supply, List.mem_append_left _ hmem, hvalue, ?_⟩
  rw [htype]
  exact hmeant.trans hsame

/-! ## One request keeps every credential where it was meant to go -/

theorem secret_kept {row : Row} {update : Update} {effective : Fields}
    (hvet : vetConfig v row update = .ok effective) (hguard : Resupplies v row (.update update))
    (hnone : update.secret = none) (hstored : row.secretRef.isSome) :
    SameDestination v row.connType secretField row.config effective ∨
      secretSent row.connType (withConfigDefaults v row.connType effective) = false := by
  rcases vetConfig_settled hvet with ⟨_, rfl⟩ | ⟨config, hconfig, rfl, _, hredirect⟩
  · exact .inl (.refl v row.connType secretField _)
  · rcases secret_settled hredirect with hsame | hmissing | hsupplied | hunused
    · exact .inl hsame
    · rw [hstored] at hmissing
      cases hmissing
    · rw [hnone] at hsupplied
      cases hsupplied
    · by_cases hdbt : row.connType = "dbt".toList
      · simp only [Resupplies, hconfig] at hguard
        exact hguard hdbt hnone hstored
      · exact .inr (unused_not_sent hunused hdbt)

theorem catalog_kept {row : Row} {update : Update} {effective : Fields} {name : Text}
    (hvet : vetConfig v row update = .ok effective) (hnone : update.catalogSecret = none)
    (hname : catalogRef? effective = some name) :
    catalogRef? row.config = some name ∧
      SameDestination v row.connType catalog row.config effective := by
  rcases vetConfig_settled hvet with ⟨_, rfl⟩ | ⟨config, _, rfl, hforeign, hredirect⟩
  · exact ⟨hname, .refl v row.connType catalog _⟩
  · obtain ⟨htext, hne⟩ := Option.filter_eq_some_iff.mp hname
    have hstored : row.config.lookup catalogSecretName = some (.str name) :=
      carried_settled hforeign (by decide) (configText_eq.mp htext)
    refine ⟨Option.filter_eq_some_iff.mpr ⟨configText_eq.mpr hstored, hne⟩, ?_⟩
    rcases catalog_settled hredirect with hsame | hmissing | hsupplied
    · exact hsame
    · have hset : name ≠ [] := by simpa using hne
      rw [configValue, hstored, Option.getD_some, Json.truthy] at hmissing
      exact absurd hset (of_decide_eq_false hmissing)
    · rw [hnone] at hsupplied
      cases hsupplied

theorem UpdateSaved.secret_meant {world after : World} {supplied : List Supply} {update : Update}
    {vetted : Vetted} (hsaved : UpdateSaved services answers world after update vetted)
    (hmeant : SentWhereMeant services.validators ⟨world, supplied⟩)
    (hguard : Resupplies services.validators world.row (.update update)) {value : Text}
    (hvalue : presentedSecret services.validators after = some value) :
    MeantFor services.validators secretField
      (supplied ++ supplies (Request.update update).values after.row.config) after.row value := by
  unfold presentedSecret at hvalue
  split at hvalue
  · next hsent =>
    rw [hsaved.store] at hvalue
    rcases presented_cases hvalue with hwritten | ⟨name, hname, hlast, hold⟩
    · exact meant_of_written supplied (written_supplied hwritten)
    · have htaken := hsaved.taken
      rw [hsaved.secretRef] at hname
      cases hsecret : update.secret with
      | some secret =>
        rw [hsecret] at hname htaken hlast
        cases hname
        have hisSome := lastWritten_isSome (landed_primary services
          (world.row.edited update vetted) htaken)
        rw [hlast] at hisSome
        cases hisSome
      | none =>
        rw [hsecret] at hname
        have hstored : world.row.secretRef = some name := hname
        have hsame := hsaved.same secretField (.inl rfl)
        rcases secret_kept hsaved.settled hguard hsecret (by rw [hstored]; rfl) with
          hstay | hunsent
        · have hstays := hstay.trans hsame
          refine meant_of_kept hsaved.connType hstays (hmeant.1 value ?_)
          rw [hsaved.connType] at hsent
          rw [presentedSecret, secretSent_congr hstays, if_pos hsent, hstored]
          exact hold
        · rw [secretSent_congr hsame, ← hsaved.connType, hsent] at hunsent
          cases hunsent
  · cases hvalue

theorem UpdateSaved.catalog_meant {world after : World} {supplied : List Supply}
    {update : Update} {vetted : Vetted}
    (hsaved : UpdateSaved services answers world after update vetted)
    (hmeant : SentWhereMeant services.validators ⟨world, supplied⟩) {value : Text}
    (hvalue : presentedCatalog after = some value) :
    MeantFor services.validators catalog
      (supplied ++ supplies (Request.update update).values after.row.config) after.row value := by
  unfold presentedCatalog at hvalue
  rw [hsaved.store] at hvalue
  rcases presented_cases hvalue with hwritten | ⟨name, hname, hlast, hold⟩
  · exact meant_of_written supplied (written_supplied hwritten)
  · have htaken := hsaved.taken
    rw [hsaved.config] at hname
    cases hsecret : update.catalogSecret with
    | some secret =>
      rw [hsecret] at hname htaken hlast
      have hset : (world.row.edited update vetted).catalogRef services.nfkd = name := by
        obtain ⟨htext, _⟩ := Option.filter_eq_some_iff.mp hname
        have hlookup := configText_eq.mp htext
        rw [savedConfig, if_pos Option.isSome_some, lookup_setField_self] at hlookup
        simpa using hlookup
      have hisSome := lastWritten_isSome (landed_catalog services
        (world.row.edited update vetted) htaken)
      rw [hset, hlast] at hisSome
      cases hisSome
    | none =>
      rw [hsecret, savedConfig, if_neg (by simp), hsaved.editedConfig] at hname
      obtain ⟨hstored, hstay⟩ := catalog_kept hsaved.settled hsecret hname
      refine meant_of_kept hsaved.connType (hstay.trans (hsaved.same catalog (.inr rfl)))
        (hmeant.2 value ?_)
      rw [presentedCatalog, hstored]
      exact hold

theorem presentedSecret_stored {world : World} {value : Text}
    (h : presentedSecret v world = some value) :
    world.row.secretRef.bind world.store = some value := by
  unfold presentedSecret at h
  split at h
  · exact h
  · cases h

theorem reauth_sentWhereMeant {world : World} {supplied : List Supply}
    {connectionId secret : Text} {skipTest : Bool}
    (hmeant : SentWhereMeant services.validators ⟨world, supplied⟩)
    (h : (reauthConnection services answers world connectionId secret skipTest).1 = none) :
    SentWhereMeant services.validators
      ⟨(reauthConnection services answers world connectionId secret skipTest).2, supplied ++
        supplies [secret]
          (reauthConnection services answers world connectionId secret skipTest).2.row.config⟩ := by
  cases hvet : vetReauth answers world connectionId secret skipTest with
  | error e =>
    rw [reauthConnection, hvet] at h
    cases h
  | ok _ =>
    have houtcome := reauthConnection_outcome services hvet
    have hcommits : answers.secretWritten = true ∧ answers.committed = true := by
      by_contra hnot
      have hraises := houtcome.raises.mpr fun hboth => hnot hboth.1
      rw [h] at hraises
      cases hraises
    have hrow := houtcome.committed hcommits
    have hstore := houtcome.store_eq
    have hcore := core_applyTestOutcome answers (world.row.withSecretRef services answers secret)
      (!skipTest) true
    generalize reauthConnection services answers world connectionId secret skipTest = result at *
    rw [← hrow] at hcore
    have hconfig : result.2.row.config = world.row.config := congrArg Prod.snd hcore
    have htype : result.2.row.connType = world.row.connType := congrArg (·.1.connType) hcore
    have href : result.2.row.secretRef = some (world.row.primaryRef services.nfkd) :=
      congrArg (·.1.secretRef) hcore
    have hlanded : landedSecret services answers (some secret) world.row =
        [(world.row.primaryRef services.nfkd, secret)] := by
      rw [landedSecret, if_pos hcommits.1]
    have hsame : ∀ slot, SameDestination services.validators world.row.connType slot
        world.row.config result.2.row.config := by
      intro slot
      rw [hconfig]
      exact .refl services.validators world.row.connType slot world.row.config
    rw [hlanded] at hstore
    constructor
    · intro value hvalue
      have hstored := presentedSecret_stored hvalue
      rw [hstore, href] at hstored
      rcases presented_cases hstored with hwritten | ⟨name, hname, hlast, _⟩
      · exact meant_of_written supplied hwritten
      · cases hname
        have hisSome := lastWritten_isSome (List.mem_singleton_self
          (world.row.primaryRef services.nfkd, secret))
        rw [hlast] at hisSome
        cases hisSome
    · intro value hvalue
      unfold presentedCatalog at hvalue
      rw [hstore, hconfig] at hvalue
      rcases presented_cases hvalue with hwritten | ⟨name, hname, _, hold⟩
      · exact meant_of_written supplied hwritten
      · refine meant_of_kept htype (hsame catalog) (hmeant.2 value ?_)
        rw [presentedCatalog, hname]
        exact hold

theorem created_sentWhereMeant {others : List (Text × Text)} {store : SecretStore}
    {new : Creation} {h : History}
    (hcreated : History.created services answers others store new = some h) :
    SentWhereMeant services.validators h := by
  unfold History.created at hcreated
  split at hcreated
  · next row store' hcreate =>
    cases hcreated
    obtain ⟨first, hsaved⟩ := createConnection_saved hcreate
    constructor
    · intro value hvalue
      exact meant_of_written []
        (hsaved.secret_written (presentedSecret_stored hvalue))
    · intro value hvalue
      exact meant_of_written [] (hsaved.catalog_written hvalue)
  · cases hcreated

/-- The step lemma. -/
theorem step_sentWhereMeant {h h' : History} {event : Answers × Request}
    (hmeant : SentWhereMeant services.validators h)
    (hguard : Resupplies services.validators h.world.row event.2)
    (hstep : h.step services event = some h') : SentWhereMeant services.validators h' := by
  obtain ⟨answers, request⟩ := event
  unfold History.step at hstep
  dsimp only at hstep
  split at hstep
  · cases hstep
  · next hfails =>
    cases hstep
    have hnone : (request.save services answers h.world).1 = none := by simpa using hfails
    cases request with
    | update edit =>
      obtain ⟨vetted, hsaved⟩ := updateSaved hnone
      exact ⟨fun _ => hsaved.secret_meant hmeant hguard, fun _ => hsaved.catalog_meant hmeant⟩
    | reauth connectionId secret skipTest => exact reauth_sentWhereMeant hmeant hnone

/-- **Credentials are only sent where they were meant to go**, at every moment of every history in
which no update of a dbt connection moves its stored secret. -/
theorem run_sentWhereMeant (services : Services) (answers : Answers)
    (others : List (Text × Text)) (store : SecretStore) (new : Creation) (h h' : History)
    (events : List (Answers × Request))
    (hcreated : History.created services answers others store new = some h)
    (hguard : Meets (History.step services)
      (fun h event => Resupplies services.validators h.world.row event.2) h events)
    (hrun : run (History.step services) h events = some h') :
    SentWhereMeant services.validators h' :=
  run_invariant (fun _ _ _ hmeant hguard hstep => step_sentWhereMeant hmeant hguard hstep)
    (created_sentWhereMeant hcreated) hguard hrun

def lakeConfig (uri : String) : Fields :=
  [("catalog_type".toList, textValue "sql"), ("catalog_uri".toList, textValue uri)]

def lake : Creation where
  id := "1f2e3d4c".toList
  name := "Lake".toList
  connType := "iceberg".toList
  env := "dev".toList
  config := lakeConfig "postgresql://db/lake"
  secret := some "key".toList
  catalogSecret := some "password".toList

def lakeMoves : Request :=
  .update {
    connectionId := lake.id
    config := some (lakeConfig "postgresql://db2/lake")
    secret := some "key2".toList
    catalogSecret := some "password2".toList }

/-- An Iceberg connection moves to another catalog with both of its credentials. -/
theorem run_sentWhereMeant_lake : ∃ h h',
    History.created plainServices {} [] (fun _ => none) lake = some h ∧
      run (History.step plainServices) h [({}, lakeMoves)] = some h' ∧
      SentWhereMeant plainServices.validators h' := by
  have hsome : ((History.created plainServices {} [] (fun _ => none) lake).bind fun h =>
      run (History.step plainServices) h [({}, lakeMoves)]).isSome := by
    decide
  have htype : (History.created plainServices {} [] (fun _ => none) lake).any fun h =>
      h.world.row.connType ≠ "dbt".toList := by
    decide
  obtain ⟨h', hbind⟩ := Option.isSome_iff_exists.mp hsome
  obtain ⟨h, hcreated, hrun⟩ := Option.bind_eq_some_iff.mp hbind
  have hdbt : h.world.row.connType ≠ "dbt".toList := by
    rw [hcreated] at htype
    simpa using htype
  have hguard : Meets (History.step plainServices)
      (fun h event => Resupplies plainServices.validators h.world.row event.2) h
      [({}, lakeMoves)] :=
    ⟨fun hcase => absurd hcase hdbt, fun _ _ => trivial⟩
  exact ⟨h, h', hcreated, hrun, run_sentWhereMeant plainServices {} [] (fun _ => none) lake h h' _
    hcreated hguard hrun⟩

def artifactsConfig (endpoint : String) : Fields :=
  [("project_name".toList, textValue "sales"), ("artifacts_uri".toList, textValue "s3://dbt/sales"),
    ("jobs".toList, .arr [textValue "nightly"]), ("region".toList, textValue "eu-west-1"),
    ("access_key_id".toList, textValue "AK"), ("endpoint_url".toList, textValue endpoint)]

def artifacts : Creation where
  id := "1f2e3d4c".toList
  name := "dbt".toList
  connType := "dbt".toList
  env := "dev".toList
  config := artifactsConfig "https://s3.internal"
  secret := some "key".toList

def artifactsMove : Request :=
  .update {
    connectionId := artifacts.id
    config := some (artifactsConfig "https://elsewhere.example") }

/-- A dbt connection that reads with a key is pointed at another endpoint, without the key. -/
theorem dbt_key_redirected :
    ¬ ∀ (services : Services) (answers : Answers) (others : List (Text × Text))
      (store : SecretStore) (new : Creation) (h h' : History) (events : List (Answers × Request)),
      History.created services answers others store new = some h →
        run (History.step services) h events = some h' →
          SentWhereMeant services.validators h' := by
  intro hall
  have hany : ((History.created plainServices {} [] (fun _ => none) artifacts).bind fun h =>
      run (History.step plainServices) h [({}, artifactsMove)]).any fun h' =>
        presentedSecret plainServices.validators h'.world = some "key".toList ∧
          ¬ MeantFor plainServices.validators secretField h'.supplied h'.world.row
            "key".toList := by
    decide
  obtain ⟨h', hbind, hsent⟩ := (Option.any_eq_true _ _).mp hany
  obtain ⟨h, hcreated, hrun⟩ := Option.bind_eq_some_iff.mp hbind
  obtain ⟨hpresented, hmeant⟩ := of_decide_eq_true hsent
  exact hmeant ((hall plainServices {} [] (fun _ => none) artifacts h h' [({}, artifactsMove)]
    hcreated hrun).1 _ hpresented)

end DataQ.Connections.Saves
