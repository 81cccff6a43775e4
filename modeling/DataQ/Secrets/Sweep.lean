import DataQ.Foundations.Json
import DataQ.Secrets.Minting

/-! # The orphan-secret sweep

`secret_sweep_service.find_orphan_secrets`: the secrets of the store that DataQ owns by their name
and that nothing references, told apart by their age. -/

namespace DataQ.Secrets
set_option autoImplicit false

/-! ## What references secrets -/

structure ConnectionRow where
  secretRef : Option Text
  config : Json
  deriving DecidableEq

structure SuiteNotificationRow where
  webhookSecretRef : Option Text
  slackWebhookSecretRef : Option Text
  deriving DecidableEq

structure ChannelRow where
  webhookSecretRef : Option Text
  hmacSecretRef : Option Text
  authHeaderSecretRef : Option Text
  deriving DecidableEq

structure Tables where
  connections : List ConnectionRow
  suiteNotifications : List SuiteNotificationRow
  /-- The `api_key_secret_ref` of the LLM settings. -/
  llmSettings : List (Option Text)
  channels : List ChannelRow
  deriving DecidableEq

/-- The settings that name secrets. -/
structure Settings where
  adfWebhookSecretName : Text
  airflowWebhookSecretName : Text
  dbtWebhookSecretName : Text
  teamsWebhookSecretName : Option Text
  slackWebhookSecretName : Option Text
  emailPasswordSecretName : Option Text
  authEmailPasswordSecretName : Option Text
  tamperAnchorObjectLockSecretName : Text
  deriving DecidableEq

/-- The settings of `_settings_owned_names`, as they are set. -/
def Settings.registered (s : Settings) : List Text :=
  [s.adfWebhookSecretName, s.airflowWebhookSecretName, s.dbtWebhookSecretName] ++
    s.teamsWebhookSecretName.toList ++ s.slackWebhookSecretName.toList ++
    s.emailPasswordSecretName.toList

/-- The settings it leaves out. -/
def Settings.leftOut (s : Settings) : List Text :=
  s.authEmailPasswordSecretName.toList ++ [s.tamperAnchorObjectLockSecretName]

def settingsOwnedNames (s : Settings) : List Text :=
  (s.registered.filter fun name => name ≠ [] ∧ pyStrip name ≠ []).map pyStrip

/-- `_OWNER_COLUMNS`. -/
def ownerColumns (t : Tables) : List (Option Text) :=
  t.connections.map ConnectionRow.secretRef ++
    t.suiteNotifications.map SuiteNotificationRow.webhookSecretRef ++
    t.suiteNotifications.map SuiteNotificationRow.slackWebhookSecretRef ++ t.llmSettings ++
    t.channels.map ChannelRow.webhookSecretRef ++ t.channels.map ChannelRow.hmacSecretRef ++
    t.channels.map ChannelRow.authHeaderSecretRef

def columnNames (t : Tables) : List Text := (ownerColumns t).filterMap id |>.filter (· ≠ [])

/-- `key LIKE '%_secret_name'`: an underscore of the pattern stands for any character. -/
def likeSecretName (key : Text) : Bool :=
  let tail := key.drop (key.length - 12)
  12 ≤ key.length && (tail.drop 1).take 6 = "secret".toList && tail.drop 8 = "name".toList

/-- The value that `jsonb_each_text` gives; `render` prints what is not a string. -/
def eachText (render : Json → Text) : Json → Option Text
  | .null => none
  | .str s => some s
  | j => some (render j)

/-- The names that the config of a connection holds. -/
def configNames (render : Json → Text) (t : Tables) : List Text :=
  (t.connections.flatMap fun row => row.config.entries.filterMap fun entry =>
    if likeSecretName entry.1 then eachText render entry.2 else none).filter (· ≠ [])

/-- `_owned_secret_refs`. -/
def ownedSecretRefs (render : Json → Text) (t : Tables) (s : Settings) : List Text :=
  settingsOwnedNames s ++ columnNames t ++ configNames render t

/-! ## The sweep -/

/-- A secret of the store's listing; times are in microseconds. -/
structure SecretInfo where
  name : Text
  createdAt : Option ℤ
  deriving DecidableEq, Repr

structure Split where
  orphans : List Text
  tooYoung : List Text
  unknownAge : List Text
  deriving DecidableEq, Repr

def findOrphanSecrets (owned : List Text) (grace now : ℤ) : List SecretInfo → Split
  | [] => ⟨[], [], []⟩
  | info :: secrets =>
    let rest := findOrphanSecrets owned grace now secrets
    if !isCandidate info.name || owned.contains info.name then rest
    else
      match info.createdAt with
      | none => { rest with unknownAge := info.name :: rest.unknownAge }
      | some created =>
        if now - created < grace then { rest with tooYoung := info.name :: rest.tooYoung }
        else { rest with orphans := info.name :: rest.orphans }

theorem mem_orphans {owned : List Text} {grace now : ℤ} {secrets : List SecretInfo} {name : Text} :
    name ∈ (findOrphanSecrets owned grace now secrets).orphans ↔
      isCandidate name = true ∧ name ∉ owned ∧
        ∃ created, ⟨name, some created⟩ ∈ secrets ∧ grace ≤ now - created := by
  induction secrets with
  | nil => simp [findOrphanSecrets]
  | cons info secrets ih =>
    obtain ⟨other, created⟩ := info
    have hrest : (∃ t, (⟨name, some t⟩ : SecretInfo) ∈ ⟨other, created⟩ :: secrets ∧
        grace ≤ now - t) ↔ (name = other ∧ ∃ t, created = some t ∧ grace ≤ now - t) ∨
        ∃ t, ⟨name, some t⟩ ∈ secrets ∧ grace ≤ now - t := by
      simp only [List.mem_cons, SecretInfo.mk.injEq]
      constructor
      · rintro ⟨t, ⟨rfl, hcreated⟩ | hmem, hold⟩
        · exact .inl ⟨rfl, t, hcreated.symm, hold⟩
        · exact .inr ⟨t, hmem, hold⟩
      · rintro (⟨rfl, t, hcreated, hold⟩ | ⟨t, hmem, hold⟩)
        · exact ⟨t, .inl ⟨rfl, hcreated.symm⟩, hold⟩
        · exact ⟨t, .inr hmem, hold⟩
    rw [hrest]
    simp only [findOrphanSecrets]
    split
    · next hskip =>
      rw [ih]
      have hother : isCandidate name = true → name ∉ owned → name ≠ other := by
        rintro hcandidate hfree rfl
        rw [hcandidate] at hskip
        exact hfree (by simpa using hskip)
      constructor
      · rintro ⟨hcandidate, hfree, hold⟩
        exact ⟨hcandidate, hfree, .inr hold⟩
      · rintro ⟨hcandidate, hfree, ⟨heq, -⟩ | hold⟩
        · exact absurd heq (hother hcandidate hfree)
        · exact ⟨hcandidate, hfree, hold⟩
    · next htaken =>
      have hcandidate : isCandidate other = true ∧ other ∉ owned := by simpa using htaken
      cases created with
      | none =>
        show name ∈ (findOrphanSecrets owned grace now secrets).orphans ↔ _
        rw [ih]
        simp
      | some t =>
        dsimp only
        split
        · next hyoung =>
          show name ∈ (findOrphanSecrets owned grace now secrets).orphans ↔ _
          rw [ih]
          have hnot : ¬ (name = other ∧ ∃ t', some t = some t' ∧ grace ≤ now - t') := by
            rintro ⟨-, t', heq, hold⟩
            obtain rfl := Option.some.inj heq
            omega
          rw [or_iff_right hnot]
        · next hold =>
          show name ∈ other :: _ ↔ _
          rw [List.mem_cons, ih]
          constructor
          · rintro (rfl | ⟨hc, hf, h⟩)
            · exact ⟨hcandidate.1, hcandidate.2, .inl ⟨rfl, t, rfl, by omega⟩⟩
            · exact ⟨hc, hf, .inr h⟩
          · rintro ⟨hc, hf, ⟨heq, -⟩ | h⟩
            · exact .inl heq
            · exact .inr ⟨hc, hf, h⟩

/-! ## What the sweep sees -/

section Exact

variable (nfkd : Text → Text) (render : Json → Text) (t : Tables) (s : Settings)

/-- A setting names the secret. -/
def SettingNames (name : Text) : Prop :=
  ∃ value ∈ s.registered ++ s.leftOut, name = value ∨ name = pyStrip value

/-- A column, a value of a config or a setting names the secret. -/
def Referenced (name : Text) : Prop :=
  some name ∈ ownerColumns t ∨
    (∃ row ∈ t.connections, ∃ entry ∈ row.config.entries, eachText render entry.2 = some name) ∨
    SettingNames s name

/-- A column, a `*_secret_name` key of a config or a setting names the secret. -/
def ReferencedByKey (name : Text) : Prop :=
  some name ∈ ownerColumns t ∨
    (∃ row ∈ t.connections, ∃ entry ∈ row.config.entries,
      "_secret_name".toList <:+ entry.1 ∧ entry.2 = .str name) ∨
    SettingNames s name

/-- The names that the registry does not have from the settings: those of the settings it leaves
out, and those that are set with blanks around them. -/
def Settings.unregistered : List Text :=
  s.leftOut ++ s.leftOut.map pyStrip ++ s.registered.filter fun name => pyStrip name ≠ name

variable {nfkd render t s}

theorem likeSecretName_of_suffix {key : Text} (h : "_secret_name".toList <:+ key) :
    likeSecretName key = true := by
  obtain ⟨front, rfl⟩ := h
  have hlength : (front ++ "_secret_name".toList).length = front.length + 12 := by simp
  have hdrop : (front ++ "_secret_name".toList).drop (front.length + 12 - 12) =
      "_secret_name".toList := by
    rw [Nat.add_sub_cancel, List.drop_left]
  rw [likeSecretName, hlength, hdrop]
  simp

theorem mem_columnNames {name : Text} :
    name ∈ columnNames t ↔ some name ∈ ownerColumns t ∧ name ≠ [] := by
  simp [columnNames]

theorem mem_configNames {name : Text} : name ∈ configNames render t ↔
    name ≠ [] ∧ ∃ row ∈ t.connections, ∃ entry ∈ row.config.entries,
      likeSecretName entry.1 = true ∧ eachText render entry.2 = some name := by
  simp [configNames, and_comm]

theorem mem_settingsOwnedNames {name : Text} : name ∈ settingsOwnedNames s ↔
    ∃ value ∈ s.registered, name = pyStrip value ∧ name ≠ [] := by
  simp only [settingsOwnedNames, List.mem_map, List.mem_filter, decide_eq_true_eq]
  constructor
  · rintro ⟨value, ⟨hvalue, -, hne⟩, rfl⟩
    exact ⟨value, hvalue, rfl, hne⟩
  · rintro ⟨value, hvalue, rfl, hne⟩
    refine ⟨value, ⟨hvalue, ?_, hne⟩, rfl⟩
    rintro rfl
    exact hne rfl

theorem mem_ownedSecretRefs {name : Text} : name ∈ ownedSecretRefs render t s ↔
    name ∈ settingsOwnedNames s ∨ name ∈ columnNames t ∨ name ∈ configNames render t := by
  rw [ownedSecretRefs, List.mem_append, List.mem_append, or_assoc]

theorem referenced_of_owned {name : Text} (h : name ∈ ownedSecretRefs render t s) :
    Referenced render t s name := by
  rcases mem_ownedSecretRefs.mp h with hsetting | hcolumn | hconfig
  · obtain ⟨value, hvalue, hname, -⟩ := mem_settingsOwnedNames.mp hsetting
    exact .inr (.inr ⟨value, List.mem_append_left _ hvalue, .inr hname⟩)
  · exact .inl (mem_columnNames.mp hcolumn).1
  · obtain ⟨-, row, hrow, entry, hentry, -, htext⟩ := mem_configNames.mp hconfig
    exact .inr (.inl ⟨row, hrow, entry, hentry, htext⟩)

/-- What is referenced has an owner, or its name comes from an unregistered setting alone. -/
theorem owned_of_referenced {name : Text} (hne : name ≠ []) (h : ReferencedByKey t s name) :
    name ∈ ownedSecretRefs render t s ∨ name ∈ s.unregistered := by
  rw [mem_ownedSecretRefs]
  rcases h with hcolumn | ⟨row, hrow, entry, hentry, hkey, hvalue⟩ | ⟨value, hvalue, hname⟩
  · exact .inl (.inr (.inl (mem_columnNames.mpr ⟨hcolumn, hne⟩)))
  · refine .inl (.inr (.inr (mem_configNames.mpr ⟨hne, row, hrow, entry, hentry, ?_, ?_⟩)))
    · exact likeSecretName_of_suffix hkey
    · rw [hvalue]
      rfl
  · rcases List.mem_append.mp hvalue with hvalue | hvalue
    · have hstripped : name = pyStrip value → name ∈ settingsOwnedNames s := fun heq =>
        mem_settingsOwnedNames.mpr ⟨value, hvalue, heq, hne⟩
      rcases hname with rfl | hname
      · by_cases hplain : pyStrip name = name
        · exact .inl (.inl (hstripped hplain.symm))
        · refine .inr (List.mem_append_right _ (List.mem_filter.mpr ⟨hvalue, ?_⟩))
          simpa using hplain
      · exact .inl (.inl (hstripped hname))
    · refine .inr (List.mem_append_left _ (List.mem_append.mpr ?_))
      rcases hname with rfl | rfl
      · exact .inl hvalue
      · exact .inr (List.mem_map_of_mem hvalue)

theorem settingNames_of_unregistered {name : Text} (h : name ∈ s.unregistered) :
    SettingNames s name := by
  rcases List.mem_append.mp h with h | h
  · rcases List.mem_append.mp h with h | h
    · exact ⟨name, List.mem_append_right _ h, .inl rfl⟩
    · obtain ⟨value, hvalue, rfl⟩ := List.mem_map.mp h
      exact ⟨value, List.mem_append_right _ hvalue, .inr rfl⟩
  · exact ⟨name, List.mem_append_left _ (List.mem_filter.mp h).1, .inl rfl⟩

theorem ne_nil_of_isCandidate {name : Text} (h : isCandidate name = true) : name ≠ [] := by
  rintro rfl
  exact absurd h (by decide)

/-- The sweep reports every old secret that DataQ minted and nothing references, and none that
something references, exactly if no old secret of the LLM provider has gone unreferenced and every
old secret that only an unregistered setting could name has another owner. -/
theorem sweep_exact_iff (h : KeepsAscii nfkd) (grace now : ℤ) (secrets : List SecretInfo) :
    ((∀ (mint : Mint) created, ⟨mint.name nfkd, some created⟩ ∈ secrets →
        ¬ Referenced render t s (mint.name nfkd) → grace < now - created →
        mint.name nfkd ∈
          (findOrphanSecrets (ownedSecretRefs render t s) grace now secrets).orphans) ∧
      (∀ name, ReferencedByKey t s name →
        name ∉ (findOrphanSecrets (ownedSecretRefs render t s) grace now secrets).orphans)) ↔
    (∀ token created, ⟨(Mint.llmProvider token).name nfkd, some created⟩ ∈ secrets →
        grace < now - created → Referenced render t s ((Mint.llmProvider token).name nfkd)) ∧
      (∀ name ∈ s.unregistered, isCandidate name = true →
        ∀ created, ⟨name, some created⟩ ∈ secrets → grace ≤ now - created →
          name ∈ settingsOwnedNames s ∨ name ∈ columnNames t ∨ name ∈ configNames render t) := by
  simp only [mem_orphans]
  constructor
  · rintro ⟨hseen, hkept⟩
    refine ⟨fun token created hmem hold => ?_, fun name hname hcandidate created hmem hold => ?_⟩
    · by_contra hfree
      have hreported := hseen (.llmProvider token) created hmem hfree hold
      exact (Mint.isCandidate_iff h _).mp hreported.1 token rfl
    · rw [← mem_ownedSecretRefs]
      by_contra hfree
      have hnamed : ReferencedByKey t s name := .inr (.inr (settingNames_of_unregistered hname))
      exact hkept name hnamed ⟨hcandidate, hfree, created, hmem, hold⟩
  · rintro ⟨hllm, hsettings⟩
    refine ⟨fun mint created hmem hfree hold => ?_, ?_⟩
    · refine ⟨(Mint.isCandidate_iff h mint).mpr ?_,
        fun howned => hfree (referenced_of_owned howned), created, hmem, hold.le⟩
      rintro token rfl
      exact hfree (hllm token created hmem hold)
    · rintro name hnamed ⟨hcandidate, hfree, created, hmem, hold⟩
      rcases owned_of_referenced (ne_nil_of_isCandidate hcandidate) hnamed with howned | hname
      · exact hfree howned
      · exact hfree (mem_ownedSecretRefs.mpr (hsettings name hname hcandidate created hmem hold))

end Exact

def defaultSettings : Settings where
  adfWebhookSecretName := "adf-webhook-secret".toList
  airflowWebhookSecretName := "airflow-webhook-secret".toList
  dbtWebhookSecretName := "dbt-webhook-secret".toList
  teamsWebhookSecretName := none
  slackWebhookSecretName := none
  emailPasswordSecretName := none
  authEmailPasswordSecretName := none
  tamperAnchorObjectLockSecretName := []

/-- A connection that still has its secret. -/
def oneConnection : Tables :=
  ⟨[⟨some "conn-snowflake-dev-1f2e3d4c".toList, .obj []⟩], [], [], []⟩

/-- Its secret, and the one of a channel that is gone. -/
def oldSecrets : List SecretInfo :=
  [⟨"conn-snowflake-dev-1f2e3d4c".toList, some 0⟩, ⟨"channel-auth-7".toList, some 0⟩]

theorem sweep_exact_of_oldSecrets :
    (∀ (mint : Mint) created, ⟨mint.name id, some created⟩ ∈ oldSecrets →
        ¬ Referenced (fun _ => []) oneConnection defaultSettings (mint.name id) →
        7 < 9 - created → mint.name id ∈ (findOrphanSecrets
          (ownedSecretRefs (fun _ => []) oneConnection defaultSettings) 7 9 oldSecrets).orphans) ∧
      (∀ name, ReferencedByKey oneConnection defaultSettings name → name ∉ (findOrphanSecrets
        (ownedSecretRefs (fun _ => []) oneConnection defaultSettings) 7 9 oldSecrets).orphans) := by
  have hkeeps : KeepsAscii id := fun _ _ => rfl
  refine (sweep_exact_iff hkeeps 7 9 oldSecrets).mpr ⟨fun token created hmem _ => ?_, ?_⟩
  · have hcandidates : ∀ info ∈ oldSecrets, isCandidate info.name = true := by decide
    exact absurd rfl ((Mint.isCandidate_iff hkeeps _).mp (hcandidates _ hmem) token)
  · have hnone : ∀ name ∈ defaultSettings.unregistered, isCandidate name = false := by decide
    intro name hname hcandidate
    rw [hnone name hname] at hcandidate
    cases hcandidate

/-- The secret of an LLM provider that was dropped, and the one of the sign-in mailer. -/
def overlooked : List SecretInfo :=
  [⟨(Mint.llmProvider 0).name id, some 0⟩, ⟨"conn-otp-mail".toList, some 0⟩]

/-- The first is not reported although nothing references it, the second is although a setting
does. -/
theorem overlooked_secrets :
    (¬ Referenced (fun _ => []) ⟨[], [], [none], []⟩ defaultSettings
        ((Mint.llmProvider 0).name id) ∧
      (Mint.llmProvider 0).name id ∉ (findOrphanSecrets (ownedSecretRefs (fun _ => [])
        ⟨[], [], [none], []⟩ defaultSettings) 7 9 overlooked).orphans) ∧
    ReferencedByKey ⟨[], [], [], []⟩
        { defaultSettings with authEmailPasswordSecretName := some "conn-otp-mail".toList }
        "conn-otp-mail".toList ∧
      "conn-otp-mail".toList ∈ (findOrphanSecrets (ownedSecretRefs (fun _ => []) ⟨[], [], [], []⟩
        { defaultSettings with authEmailPasswordSecretName := some "conn-otp-mail".toList })
        7 9 overlooked).orphans := by
  refine ⟨⟨?_, by decide⟩, .inr (.inr ⟨"conn-otp-mail".toList, by decide, .inl rfl⟩),
    by decide⟩
  rintro (hcolumn | ⟨row, hrow, -⟩ | ⟨value, hvalue, hname⟩)
  · revert hcolumn
    decide
  · cases hrow
  · revert value
    decide

end DataQ.Secrets
