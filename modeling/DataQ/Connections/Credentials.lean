import Mathlib.Logic.Function.Basic
import DataQ.Connections.SecretNames

/-! # The two credentials of a connection

`create_connection` and `update_connection` as far as they write credentials, and when the primary
one and the second one (`catalog`) have different store entries. The other checks of the two
services only reject a request, and what they save beside the credentials no reader below uses. -/

namespace DataQ.Connections
open DataQ.Joined
set_option autoImplicit false

/-- `config["catalog_secret_name"]`: not a key, JSON `null`, or a string. -/
inductive ConfigName
  | absent | null
  | text (t : Text)
  deriving DecidableEq, Repr

/-- The string `config.get` gives, if it gives one. -/
def ConfigName.stored : ConfigName → Option Text
  | .text t => some t
  | .absent | .null => none

structure Connection where
  id : Text
  name : Text
  connType : Text
  env : Text
  secretRef : Option Text
  catalogSecretName : ConfigName
  deriving DecidableEq, Repr

abbrev SecretStore := Text → Option Text

def SecretStore.set (store : SecretStore) (ref value : Text) : SecretStore :=
  Function.update store ref (some value)

/-- `stored or minted`. -/
def orMint (stored : Option Text) (minted : Text) : Text :=
  match stored with
  | none => minted
  | some t => if t = [] then minted else t

def catalog : Text := "catalog".toList

variable (nfkd : Text → Text)

/-- The name a credential of this kind would be minted under now. -/
def Connection.mint (conn : Connection) (kind : Text) : Text :=
  connectionSecretRef nfkd conn.id conn.env conn.name conn.connType kind

/-- `_write_extra_secret` for the field `catalog`. -/
def writeExtraSecret (conn : Connection) (value : Text) (store : SecretStore) :
    Connection × SecretStore :=
  let ref := orMint conn.catalogSecretName.stored (conn.mint nfkd catalog)
  ({ conn with catalogSecretName := .text ref }, store.set ref value)

/-- `_reject_empty_credentials` lets the request through. -/
def credentialsAccepted (secret catalogSecret : Option Text) : Bool :=
  secret ≠ some [] && catalogSecret ≠ some []

/-- `_reject_foreign_secret_names` lets the payload through. -/
def secretNameAccepted (payload : ConfigName) (stored : Option ConfigName) : Bool :=
  match payload with
  | .text _ => stored = some payload
  | .absent | .null => true

/-- `_carry_over_secret_name_keys`. -/
def carryOver (stored payload : ConfigName) : ConfigName :=
  if payload = .absent then stored else payload

def createConnection (id name connType env : Text) (payload : ConfigName)
    (secret catalogSecret : Option Text) (store : SecretStore) : Option (Connection × SecretStore) :=
  if credentialsAccepted secret catalogSecret && secretNameAccepted payload none then
    let conn : Connection := ⟨id, name, connType, env, none, payload⟩
    let (conn, store) := match secret with
      | none => (conn, store)
      | some s =>
        ({ conn with secretRef := some (conn.mint nfkd []) }, store.set (conn.mint nfkd []) s)
    some (match catalogSecret with
      | none => (conn, store)
      | some s => writeExtraSecret nfkd conn s store)
  else none

/-- `update_connection`: the catalog secret first, the primary one last. -/
def updateConnection (conn : Connection) (name : Option Text) (payload : Option ConfigName)
    (secret catalogSecret : Option Text) (store : SecretStore) : Option (Connection × SecretStore) :=
  let stored := conn.catalogSecretName
  if credentialsAccepted secret catalogSecret &&
      payload.all (secretNameAccepted · (some stored)) then
    let conn := { conn with
      name := name.getD conn.name
      catalogSecretName := (payload.map (carryOver stored)).getD stored }
    let (conn, store) := match catalogSecret with
      | none => (conn, store)
      | some s => writeExtraSecret nfkd conn s store
    some (match secret with
      | none => (conn, store)
      | some s =>
        let ref := orMint conn.secretRef (conn.mint nfkd [])
        ({ conn with secretRef := some ref }, store.set ref s))
  else none

/-- Both references of the row read back the credentials. -/
def ReadsBack (conn : Connection) (store : SecretStore) (secret catalogSecret : Text) : Prop :=
  conn.secretRef.bind store = some secret ∧
    conn.catalogSecretName.stored.bind store = some catalogSecret

/-! ## When two kinds are told apart -/

/-- The tail with no kind in it. -/
def envTail (env name connType : Text) : Text :=
  dashJoin (tailTokens (headTokens nfkd name connType) [slugify nfkd env])

/-- The slug of the kind is a word of its own: it is not empty, not in the head, not the environment. -/
def KindKept (env name connType kind : Text) : Prop :=
  slugify nfkd kind ≠ [] ∧ slugify nfkd kind ∉ headTokens nfkd name connType ∧
    slugify nfkd kind ≠ slugify nfkd env

/-- The head, cut to what the environment leaves, happens to end in a dash and the kind, behind
what the environment and the kind leave of it. -/
def KindAbsorbed (env name connType kind : Text) : Prop :=
  cutHead nfkd name connType (headBudget (envTail nfkd env name connType)) =
    join '-' (cutHead nfkd name connType
      (headBudget (join '-' (slugify nfkd kind) (envTail nfkd env name connType))))
      (slugify nfkd kind)

def Distinguishes (env name connType kind : Text) : Prop :=
  KindKept nfkd env name connType kind ∧ ¬ KindAbsorbed nfkd env name connType kind

instance (env name connType kind : Text) : Decidable (KindAbsorbed nfkd env name connType kind) :=
  inferInstanceAs (Decidable (_ = _))

instance (env name connType kind : Text) : Decidable (Distinguishes nfkd env name connType kind) :=
  inferInstanceAs (Decidable ((_ ∧ _ ∧ _) ∧ ¬ KindAbsorbed nfkd env name connType kind))

variable {nfkd}

theorem dashJoin_pair {t u : Text} (ht : t ≠ []) (hu : u ≠ []) : dashJoin [t, u] = join '-' t u := by
  rw [join_of_ne_nil ht hu]
  simp [dashJoin, List.intercalate]

theorem dashJoin_singleton (t : Text) : dashJoin [t] = t := by simp [dashJoin, List.intercalate]

theorem slugify_trimmed (text : Text) : Trimmed '-' (slugify nfkd text) := strip_trimmed _

theorem envTail_eq (env name connType : Text) : envTail nfkd env name connType =
    if slugify nfkd env ≠ [] ∧ slugify nfkd env ∉ headTokens nfkd name connType then
      slugify nfkd env else [] := by
  by_cases h : slugify nfkd env ≠ [] ∧ slugify nfkd env ∉ headTokens nfkd name connType
  · rw [if_pos h, envTail, tailTokens, if_pos (by simp [h.1, h.2]), tailTokens]
    exact dashJoin_singleton _
  · rw [if_neg h, envTail, tailTokens, if_neg (by simpa using h), tailTokens]
    rfl

theorem tailText_kept {env name connType kind : Text} (h : KindKept nfkd env name connType kind) :
    tailText nfkd env name connType kind =
      join '-' (slugify nfkd kind) (envTail nfkd env name connType) := by
  obtain ⟨hne, hhead, henv⟩ := h
  rw [tailText, tailTokens, if_pos (by simp [hne, hhead]), envTail_eq, tailTokens]
  by_cases he : slugify nfkd env ≠ [] ∧ slugify nfkd env ∉ headTokens nfkd name connType
  · rw [if_pos (by simp [he.1, he.2, Ne.symm henv]), if_pos he, tailTokens, dashJoin_pair hne he.1]
  · rw [if_neg (by simpa [Ne.symm henv] using he), if_neg he, tailTokens, join_nil,
      dashJoin_singleton]

theorem tailText_dropped {env name connType kind : Text}
    (h : ¬ KindKept nfkd env name connType kind) :
    tailText nfkd env name connType kind = envTail nfkd env name connType := by
  rw [tailText, tailTokens]
  split
  · rename_i hkept
    simp only [Bool.and_eq_true, decide_eq_true_eq, Bool.not_eq_true', List.contains_eq_mem,
      decide_eq_false_iff_not] at hkept
    -- The kind is the environment, which is then in the tail already.
    have henv : slugify nfkd kind = slugify nfkd env := by
      by_contra hne
      exact h ⟨hkept.1, hkept.2, hne⟩
    rw [envTail_eq, if_pos (henv ▸ hkept), tailTokens, if_neg (by simp [henv]), tailTokens, henv]
    exact dashJoin_singleton _
  · rfl

theorem tailText_trimmed (env name connType kind : Text) :
    Trimmed '-' (tailText nfkd env name connType kind) := by
  have henv : Trimmed '-' (envTail nfkd env name connType) := by
    rw [envTail_eq]
    split
    · exact slugify_trimmed _
    · exact trimmed_nil
  by_cases h : KindKept nfkd env name connType kind
  · rw [tailText_kept h]
    exact (slugify_trimmed kind).join henv
  · rw [tailText_dropped h]
    exact henv

/-- The readable part of a reference, in front of the id. -/
def refSlug (nfkd : Text → Text) (name connType tail : Text) : Text :=
  join '-' (cutHead nfkd name connType (headBudget tail)) tail

theorem cutHead_ne_nil (name connType : Text) : cutHead nfkd name connType maxSlug ≠ [] := by
  have hc : 'c' ∈ (dashJoin (headTokens nfkd name connType)).take maxSlug := by
    rw [headTokens, firstOccurrences, dashJoin, maxSlug]
    cases (firstOccurrences _).filter _ <;> simp [List.intercalate, List.take]
  exact strip_ne_nil hc (by decide)

theorem refSlug_ne_nil (name connType tail : Text) : refSlug nfkd name connType tail ≠ [] := by
  by_cases h : tail = []
  · rw [refSlug, h, join_nil]
    exact cutHead_ne_nil name connType
  · exact join_ne_nil_right h

theorem connectionSecretRef_eq (connectionId env name connType kind : Text) :
    connectionSecretRef nfkd connectionId env name connType kind =
      join '-' (refSlug nfkd name connType (tailText nfkd env name connType kind))
        (shortId connectionId) := by
  have hid : Trimmed '-' (shortId connectionId) := by
    apply trimmed_of_not_mem
    intro hmem
    have := List.mem_of_mem_filter (List.mem_of_mem_take hmem)
    simp at this
  have hslug : Trimmed '-' (refSlug nfkd name connType (tailText nfkd env name connType kind)) :=
    (strip_trimmed _).join (tailText_trimmed env name connType kind)
  have hne : refSlug nfkd name connType (tailText nfkd env name connType kind) ≠ [] :=
    refSlug_ne_nil name connType _
  have hstrip := (hslug.join hid).strip_eq
  rw [refSlug] at hstrip hne
  rw [connectionSecretRef, refSlug]
  simp only [hstrip, join_ne_nil hne, if_false]

theorem connectionSecretRef_eq_iff (connectionId env name connType kind kind' : Text) :
    connectionSecretRef nfkd connectionId env name connType kind =
        connectionSecretRef nfkd connectionId env name connType kind' ↔
      refSlug nfkd name connType (tailText nfkd env name connType kind) =
        refSlug nfkd name connType (tailText nfkd env name connType kind') := by
  rw [connectionSecretRef_eq, connectionSecretRef_eq]
  exact ⟨join_right_cancel, fun h => by rw [h]⟩

/-- The primary name and the name of a second kind differ exactly when the kind is told apart. -/
theorem mint_ne_iff (hnfkd : nfkd [] = []) (connectionId env name connType kind : Text) :
    connectionSecretRef nfkd connectionId env name connType [] ≠
        connectionSecretRef nfkd connectionId env name connType kind ↔
      Distinguishes nfkd env name connType kind := by
  have hprimary : tailText nfkd env name connType [] = envTail nfkd env name connType := by
    apply tailText_dropped
    intro hkept
    exact hkept.1 (by simp [slugify, hnfkd, subRuns, strip])
  rw [Ne, connectionSecretRef_eq_iff, hprimary, Distinguishes]
  by_cases hkept : KindKept nfkd env name connType kind
  · rw [tailText_kept hkept, refSlug, refSlug, ← join_assoc, KindAbsorbed]
    have hcancel : ∀ {x y : Text}, join '-' x (envTail nfkd env name connType) =
        join '-' y (envTail nfkd env name connType) ↔ x = y :=
      ⟨join_right_cancel, fun h => by rw [h]⟩
    rw [hcancel]
    exact ⟨fun h => ⟨hkept, h⟩, fun h => h.2⟩
  · rw [tailText_dropped hkept]
    exact ⟨fun h => absurd rfl h, fun h => absurd h.1 hkept⟩

/-! ## Reading the credentials back -/

theorem set_self (store : SecretStore) (ref value : Text) : store.set ref value ref = some value :=
  Function.update_self ref _ store

theorem set_ne (store : SecretStore) {ref ref' : Text} (value : Text) (h : ref' ≠ ref) :
    store.set ref value ref' = store ref' := Function.update_of_ne h _ _

theorem set_set_reads_iff (store : SecretStore) (ref ref' value value' : Text) :
    (((store.set ref value).set ref' value') ref = some value ∧
        ((store.set ref value).set ref' value') ref' = some value') ↔
      ref ≠ ref' ∨ value = value' := by
  rw [set_self]
  by_cases h : ref = ref'
  · rw [h, set_self]
    simp [eq_comm]
  · rw [set_ne _ _ h, set_self]
    simp [h]

/-- A stored name that is set, as `or` takes it. -/
def setName (stored : Option Text) : Option Text := stored.filter (· ≠ [])

/-- What tells the two references of an update apart: the names that are stored already, or the
kind where both are minted. -/
def UpdateDistinguishes (nfkd : Text → Text) (conn : Connection) : Prop :=
  match setName conn.secretRef, setName conn.catalogSecretName.stored with
  | none, none => Distinguishes nfkd conn.env conn.name conn.connType catalog
  | some primary, none => primary ≠ conn.mint nfkd catalog
  | none, some second => conn.mint nfkd [] ≠ second
  | some primary, some second => primary ≠ second

theorem orMint_setName (stored : Option Text) (minted : Text) :
    orMint stored minted = (setName stored).getD minted := by
  cases stored with
  | none => rfl
  | some t => by_cases h : t = [] <;> simp [orMint, setName, h, Option.filter]

theorem orMint_ne_iff (hnfkd : nfkd [] = []) (conn : Connection) :
    orMint conn.catalogSecretName.stored (conn.mint nfkd catalog) ≠
        orMint conn.secretRef (conn.mint nfkd []) ↔ UpdateDistinguishes nfkd conn := by
  rw [orMint_setName, orMint_setName, UpdateDistinguishes, ne_comm]
  cases setName conn.secretRef with
  | none =>
    cases setName conn.catalogSecretName.stored with
    | none =>
      simp only [Option.getD_none, Connection.mint]
      exact mint_ne_iff hnfkd conn.id conn.env conn.name conn.connType catalog
    | some second => simp only [Option.getD_none, Option.getD_some]
  | some primary =>
    cases setName conn.catalogSecretName.stored <;>
      simp only [Option.getD_none, Option.getD_some]

theorem createConnection_reads_iff (hnfkd : nfkd [] = [])
    {id name connType env secret catalogSecret : Text} {payload : ConfigName}
    {store store' : SecretStore} {conn : Connection}
    (h : createConnection nfkd id name connType env payload (some secret)
      (some catalogSecret) store = some (conn, store')) :
    ReadsBack conn store' secret catalogSecret ↔
      Distinguishes nfkd env name connType catalog ∨ secret = catalogSecret := by
  rw [createConnection] at h
  by_cases haccepted : (credentialsAccepted (some secret) (some catalogSecret) &&
      secretNameAccepted payload none) = true
  · have hpayload : payload.stored = none := by
      cases payload <;> simp_all [secretNameAccepted, ConfigName.stored]
    simp only [haccepted, if_true, writeExtraSecret, Connection.mint, hpayload, orMint,
      Option.some.injEq, Prod.mk.injEq] at h
    obtain ⟨rfl, rfl⟩ := h
    rw [← mint_ne_iff hnfkd id env name connType catalog]
    simp only [ReadsBack, ConfigName.stored, Option.bind_some]
    exact set_set_reads_iff store _ _ secret catalogSecret
  · simp only [haccepted] at h
    cases h

/-- The row an update writes its credentials under: renamed, with the carried-over config. -/
def Connection.updated (conn : Connection) (name : Option Text) (payload : Option ConfigName) :
    Connection :=
  { conn with
    name := name.getD conn.name
    catalogSecretName :=
      (payload.map (carryOver conn.catalogSecretName)).getD conn.catalogSecretName }

theorem updateConnection_reads_iff (hnfkd : nfkd [] = []) {conn conn' : Connection}
    {name : Option Text} {payload : Option ConfigName} {secret catalogSecret : Text}
    {store store' : SecretStore} (h : updateConnection nfkd conn name payload (some secret)
      (some catalogSecret) store = some (conn', store')) :
    ReadsBack conn' store' secret catalogSecret ↔
      UpdateDistinguishes nfkd (conn.updated name payload) ∨ secret = catalogSecret := by
  rw [updateConnection] at h
  by_cases haccepted : (credentialsAccepted (some secret) (some catalogSecret) &&
      payload.all (secretNameAccepted · (some conn.catalogSecretName))) = true
  · simp only [haccepted, if_true, writeExtraSecret, Connection.mint, Option.some.injEq,
      Prod.mk.injEq] at h
    obtain ⟨rfl, rfl⟩ := h
    rw [← orMint_ne_iff hnfkd (conn.updated name payload), eq_comm (a := secret), ReadsBack,
      and_comm]
    simp only [ConfigName.stored, Option.bind_some, Connection.updated, Connection.mint]
    exact set_set_reads_iff store _ _ catalogSecret secret
  · simp only [haccepted] at h
    cases h

/-- **When two credentials of a connection have entries of their own**: as minted, as written by a
create, and as written by an update of any row. -/
theorem credentials_separate_iff (hnfkd : nfkd [] = []) :
    (∀ connectionId env name connType kind : Text,
      connectionSecretRef nfkd connectionId env name connType [] ≠
          connectionSecretRef nfkd connectionId env name connType kind ↔
        Distinguishes nfkd env name connType kind) ∧
    (∀ (id name connType env secret catalogSecret : Text) (payload : ConfigName)
        (store store' : SecretStore) (conn : Connection),
      createConnection nfkd id name connType env payload (some secret) (some catalogSecret) store =
        some (conn, store') →
      (ReadsBack conn store' secret catalogSecret ↔
        Distinguishes nfkd env name connType catalog ∨ secret = catalogSecret)) ∧
    ∀ (conn conn' : Connection) (name : Option Text) (payload : Option ConfigName)
        (secret catalogSecret : Text) (store store' : SecretStore),
      updateConnection nfkd conn name payload (some secret) (some catalogSecret) store =
        some (conn', store') →
      (ReadsBack conn' store' secret catalogSecret ↔
        UpdateDistinguishes nfkd (conn.updated name payload) ∨ secret = catalogSecret) :=
  ⟨mint_ne_iff hnfkd, fun _ _ _ _ _ _ _ _ _ _ h => createConnection_reads_iff hnfkd h,
    fun _ _ _ _ _ _ _ _ h => updateConnection_reads_iff hnfkd h⟩

/-- On ASCII text normalization changes nothing; an Iceberg connection with both credentials. -/
theorem credentials_separate_iff_retail :
    ∃ conn store, createConnection id "1f2e3d4c".toList "Retail lake".toList "iceberg".toList
        "dev".toList .absent (some "s3-key".toList) (some "token".toList) (fun _ => none) =
          some (conn, store) ∧
      ReadsBack conn store "s3-key".toList "token".toList := by
  have hsome : (createConnection id "1f2e3d4c".toList "Retail lake".toList "iceberg".toList
      "dev".toList .absent (some "s3-key".toList) (some "token".toList) (fun _ => none)).isSome := rfl
  obtain ⟨⟨conn, store⟩, h⟩ := Option.isSome_iff_exists.mp hsome
  have hkept : Distinguishes id "dev".toList "Retail lake".toList "iceberg".toList catalog := by
    decide
  exact ⟨conn, store, h,
    ((@credentials_separate_iff id rfl).2.1 _ _ _ _ _ _ _ _ _ _ h).mpr (.inl hkept)⟩

/-- An Iceberg connection with the word catalog in its name. -/
theorem catalog_in_name_collides :
    ¬ ∀ (nfkd : Text → Text) (connectionId env name connType kind : Text), nfkd [] = [] →
      kind ≠ [] → connectionSecretRef nfkd connectionId env name connType [] ≠
        connectionSecretRef nfkd connectionId env name connType kind := by
  intro h
  exact h id "1f2e3d4c".toList "dev".toList "Catalog lake".toList "iceberg".toList catalog rfl
    (by decide) (by decide)

-- The cut can end the primary name where the kind would stand.
example : KindAbsorbed id "dev".toList ("aaaaaaaaaaaaaaaaaaaaaaaaaaaaaaaaaaa catalogue".toList)
    "iceberg".toList catalog := by
  decide

end DataQ.Connections
