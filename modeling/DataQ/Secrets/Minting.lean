import DataQ.Connections.Credentials
import DataQ.Foundations.Uuids

/-! # The names that secrets are minted under

Connections, suite notifications, notification channels and the LLM provider put their credentials
into the secret store under names of their own. -/

namespace DataQ.Secrets
open DataQ.Connections DataQ.Joined
set_option autoImplicit false

/-- `ENVS`. -/
inductive Env
  | dev | qa | uat | prod
  deriving DecidableEq, Repr

def Env.text : Env → Text
  | .dev => "dev".toList
  | .qa => "qa".toList
  | .uat => "uat".toList
  | .prod => "prod".toList

/-- `uuid.uuid4().hex[:12]`. -/
def hex12 (u : Uuid) : Text := (Uuid.hexText 32 u.toNat).take 12

/-- The name that `apply_secret_webhook` mints. -/
def webhookRef (refPrefix : Text) (configId token : Uuid) : Text :=
  refPrefix ++ '-' :: (Uuid.str configId ++ '-' :: hex12 token)

/-- The credentials of a notification channel. -/
inductive ChannelSecret
  | webhook | hmac | authHeader
  deriving DecidableEq, Repr

def ChannelSecret.refPrefix : ChannelSecret → Text
  | .webhook => "channel".toList
  | .hmac => "channel-hmac".toList
  | .authHeader => "channel-auth".toList

/-- The webhooks of a suite's notifications. -/
inductive SuiteWebhook
  | teams | slack
  deriving DecidableEq, Repr

def SuiteWebhook.refPrefix : SuiteWebhook → Text
  | .teams => "suite-notif".toList
  | .slack => "suite-notif-slack".toList

def llmRefPrefix : Text := "llm-provider".toList

/-- What a secret is minted for. -/
inductive Mint
  | connection (id : Uuid) (env : Env) (name connType : Text)
  | catalog (id : Uuid) (env : Env) (name connType : Text)
  | suiteNotification (webhook : SuiteWebhook) (configId token : Uuid)
  | channel (secret : ChannelSecret) (channelId token : Uuid)
  | llmProvider (token : Uuid)
  deriving DecidableEq, Repr

def Mint.name (nfkd : Text → Text) : Mint → Text
  | .connection id env name connType =>
    connectionSecretRef nfkd (Uuid.str id) env.text name connType []
  | .catalog id env name connType =>
    connectionSecretRef nfkd (Uuid.str id) env.text name connType Connections.catalog
  | .suiteNotification webhook configId token => webhookRef webhook.refPrefix configId token
  | .channel secret channelId token => webhookRef secret.refPrefix channelId token
  | .llmProvider token => llmRefPrefix ++ '-' :: hex12 token

def isAscii (text : Text) : Bool := text.all fun c => c.toNat < 128

/-- `unicodedata.normalize` leaves ASCII as it is. -/
def KeepsAscii (nfkd : Text → Text) : Prop := ∀ text, isAscii text = true → nfkd text = text

/-! ## A connection's name begins with `conn-` -/

section Connection

variable {nfkd : Text → Text}

theorem slugify_ascii (h : KeepsAscii nfkd) {text : Text} (htext : isAscii text = true) :
    slugify nfkd text = slugify id text := by
  have hcut : isAscii (text.take maxInput) = true := by
    rw [isAscii, List.all_eq_true] at htext ⊢
    exact fun c hc => htext c (List.mem_of_mem_take hc)
  unfold slugify
  rw [h _ hcut]
  rfl

/-- The text begins with the word `conn`. -/
def Conn (t : Text) : Prop := t = "conn".toList ∨ "conn-".toList <+: t

theorem conn_dashJoin (tokens : List Text) : Conn (dashJoin ("conn".toList :: tokens)) := by
  cases tokens with
  | nil => exact .inl rfl
  | cons token tokens => exact .inr ⟨_, rfl⟩

theorem Conn.take {t : Text} (h : Conn t) {n : ℕ} (hn : 5 ≤ n) : Conn (t.take n) := by
  obtain ⟨m, rfl⟩ := Nat.exists_eq_add_of_le' hn
  rcases h with rfl | ⟨rest, rfl⟩
  · exact .inl rfl
  · exact .inr ⟨rest.take m, rfl⟩

theorem Conn.strip {t : Text} (h : Conn t) : Conn (strip '-' t) := by
  rcases h with rfl | ⟨rest, rfl⟩
  · exact .inl (by decide)
  · have hfront : ("conn-".toList ++ rest).dropWhile (· = '-') = "conn-".toList ++ rest := rfl
    rw [Joined.strip, hfront, List.rdropWhile, List.reverse_append, List.dropWhile_append]
    split
    · exact .inl (by decide)
    · rw [List.reverse_append, List.reverse_reverse]
      exact .inr ⟨_, rfl⟩

theorem Conn.join {t u : Text} (h : Conn t) (hu : u ≠ []) : "conn-".toList <+: join '-' t u := by
  have ht : t ≠ [] := by
    rintro rfl
    rcases h with h | ⟨rest, h⟩ <;> cases h
  rw [join_of_ne_nil ht hu]
  rcases h with rfl | ⟨rest, rfl⟩
  · exact ⟨u, rfl⟩
  · exact ⟨rest ++ '-' :: u, by rw [List.append_assoc]⟩

variable (nfkd) in
theorem conn_cutHead (name connType : Text) {budget : ℕ} (h : 5 ≤ budget) :
    Conn (cutHead nfkd name connType budget) := by
  rw [cutHead, headTokens, firstOccurrences]
  exact ((conn_dashJoin _).take h).strip

theorem length_dashJoin_le (t u : Text) (seen : List Text) :
    (dashJoin (tailTokens seen [t, u])).length ≤ t.length + u.length + 1 := by
  simp only [tailTokens]
  split
  · split
    · simp [dashJoin, List.intercalate]
      omega
    · simp [dashJoin, List.intercalate]
      omega
  · split
    · simp [dashJoin, List.intercalate]
      omega
    · simp [dashJoin, List.intercalate]

theorem shortId_ne_nil (id : Uuid) : shortId (Uuid.str id) ≠ [] := by
  have hdigits : ∀ c ∈ Uuid.hexText 32 id.toNat, c ∈ "0123456789abcdef".toList := fun c hc =>
    Uuid.hexText_mem hc
  have hnodash : '-' ∉ Uuid.hexText 32 id.toNat := fun hc =>
    absurd (hdigits _ hc) (by decide)
  have hallowed : ∀ c ∈ "0123456789abcdef".toList, allowed c = true :=
    List.all_eq_true.mp (by decide)
  have hfilter : (Uuid.hexText 32 id.toNat).filter allowed = Uuid.hexText 32 id.toNat :=
    List.filter_eq_self.mpr fun c hc => hallowed c (hdigits c hc)
  have hlength := Uuid.hexText_length 32 id.toNat
  rw [shortId, Uuid.str, Uuid.filter_dashed hnodash, hfilter]
  intro hnil
  have htake := congrArg List.length hnil
  rw [List.length_take, hlength] at htake
  simp [idChars] at htake

variable (nfkd) in
/-- Where its environment and kind are short, a connection's name begins with `conn-`. -/
theorem conn_connectionSecretRef (id : Uuid) (env name connType kind : Text)
    (hshort : (slugify nfkd kind).length + (slugify nfkd env).length ≤ 50) :
    "conn-".toList <+: connectionSecretRef nfkd (Uuid.str id) env name connType kind := by
  rw [connectionSecretRef_eq]
  have hbudget : 5 ≤ headBudget (tailText nfkd env name connType kind) := by
    have htail := length_dashJoin_le (slugify nfkd kind) (slugify nfkd env)
      (headTokens nfkd name connType)
    unfold headBudget maxSlug
    rw [tailText]
    split <;> omega
  have hhead := conn_cutHead nfkd name connType hbudget
  have hslug : Conn (refSlug nfkd name connType (tailText nfkd env name connType kind)) := by
    rw [refSlug]
    by_cases htail : tailText nfkd env name connType kind = []
    · rw [htail] at hhead ⊢
      rwa [join_nil]
    · exact .inr (hhead.join htail)
  exact hslug.join (shortId_ne_nil id)

end Connection

/-! ## The prefixes of the names -/

/-- `_DATAQ_PREFIXES`. -/
def dataqPrefixes : List Text := ["conn-".toList, "suite-notif-".toList, "channel-".toList]

/-- `name.startswith(_DATAQ_PREFIXES)`. -/
def isCandidate (name : Text) : Bool := dataqPrefixes.any fun p => p.isPrefixOf name

theorem isCandidate_of_begins {p name : Text} (hp : p ∈ dataqPrefixes) (h : p <+: name) :
    isCandidate name = true :=
  List.any_eq_true.mpr ⟨p, hp, List.isPrefixOf_iff_prefix.mpr h⟩

theorem slugify_env_length {nfkd : Text → Text} (h : KeepsAscii nfkd) (env : Env) :
    (slugify nfkd env.text).length ≤ 4 := by
  have hascii : isAscii env.text = true := by
    cases env <;> decide
  rw [slugify_ascii h hascii]
  cases env <;> decide

theorem slugify_catalog_length {nfkd : Text → Text} (h : KeepsAscii nfkd) :
    (slugify nfkd Connections.catalog).length ≤ 7 := by
  rw [slugify_ascii h (by decide)]
  decide

theorem slugify_nil_length {nfkd : Text → Text} (h : KeepsAscii nfkd) :
    (slugify nfkd []).length = 0 := by
  rw [slugify_ascii h rfl]
  rfl

/-- Every name but the LLM provider's has a prefix of the sweep. -/
theorem Mint.isCandidate_iff {nfkd : Text → Text} (h : KeepsAscii nfkd) (mint : Mint) :
    isCandidate (mint.name nfkd) = true ↔ ∀ token, mint ≠ .llmProvider token := by
  cases mint with
  | connection id env name connType =>
    have henv := slugify_env_length h env
    have hkind := slugify_nil_length h
    have hprefix := conn_connectionSecretRef nfkd id env.text name connType [] (by omega)
    exact iff_of_true (isCandidate_of_begins (by decide) hprefix) fun _ => Mint.noConfusion
  | catalog id env name connType =>
    have henv := slugify_env_length h env
    have hkind := slugify_catalog_length h
    have hprefix :=
      conn_connectionSecretRef nfkd id env.text name connType Connections.catalog (by omega)
    exact iff_of_true (isCandidate_of_begins (by decide) hprefix) fun _ => Mint.noConfusion
  | suiteNotification webhook configId token =>
    have hprefix : "suite-notif-".toList <+: webhookRef webhook.refPrefix configId token := by
      cases webhook <;> exact ⟨_, rfl⟩
    exact iff_of_true (isCandidate_of_begins (by decide) hprefix) fun _ => Mint.noConfusion
  | channel secret channelId token =>
    have hprefix : "channel-".toList <+: webhookRef secret.refPrefix channelId token := by
      cases secret <;> exact ⟨_, rfl⟩
    exact iff_of_true (isCandidate_of_begins (by decide) hprefix) fun _ => Mint.noConfusion
  | llmProvider token =>
    refine iff_of_false ?_ fun hall => hall token rfl
    rw [Bool.not_eq_true]
    rfl

end DataQ.Secrets
