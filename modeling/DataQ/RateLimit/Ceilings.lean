import DataQ.RateLimit.Middleware

/-! # Rotating credentials buys no extra requests

Whatever bearers, paths and forwarding entries the requests of one address come with, as many are let
through as the ceilings of the address say; and which address it is, the client has no say in. -/

namespace DataQ.RateLimit
open DataQ.Windows
set_option autoImplicit false

variable {Address : Type} {library : Library Address} {settings : Settings}

/-! ## The address -/

/-- The proxies have appended what they see to whatever entries the client has sent: the outermost
trusted one `entry`, those behind it the rest. -/
def Forwarded (settings : Settings) (entry : Text) (request : Request) : Prop :=
  settings.xffTrustedHops = 0 ∨ ∃ header supplied inner, request.forwardedFor = some header ∧
    forwardedEntries header = supplied ++ entry :: inner ∧
      inner.length + 1 = settings.xffTrustedHops

/-- The address by what the peer is and the outermost trusted proxy says. -/
def addressFrom (library : Library Address) (settings : Settings) (client : Option Text)
    (entry : Text) : Text :=
  if 1 ≤ settings.xffTrustedHops ∧ stripIpv4Port entry ≠ [] ∧
      (library.ipAddress (stripIpv4Port entry)).isSome then stripIpv4Port entry
  else peerHost client

def Arrives (library : Library Address) (settings : Settings) (address : Text)
    (request : Request) : Prop :=
  ∃ entry, Forwarded settings entry request ∧
    addressFrom library settings request.client entry = address

theorem getD_from_right {α : Type} (supplied inner : List α) (entry d : α) :
    (supplied ++ entry :: inner).getD
      ((supplied ++ entry :: inner).length - (inner.length + 1)) d = entry := by
  have hlength : (supplied ++ entry :: inner).length - (inner.length + 1) = supplied.length := by
    simp
  rw [hlength, List.getD_eq_getElem?_getD, List.getElem?_append_right (Nat.le_refl _), Nat.sub_self]
  rfl

theorem trustedEntry_eq {header entry : Text} {supplied inner : List Text}
    (hentries : forwardedEntries header = supplied ++ entry :: inner)
    (hhops : inner.length + 1 = settings.xffTrustedHops) :
    trustedEntry library settings (some header) =
      if stripIpv4Port entry ≠ [] ∧ (library.ipAddress (stripIpv4Port entry)).isSome then
        some (stripIpv4Port entry)
      else none := by
  by_cases hempty : header = []
  · -- the one entry of an empty header is empty
    subst hempty
    have hentry : entry = [] := by
      have hmem : entry ∈ forwardedEntries [] := by
        rw [hentries]
        exact List.mem_append_right _ List.mem_cons_self
      exact List.mem_singleton.mp hmem
    subst hentry
    rw [if_neg (fun h => h.1 rfl)]
    rfl
  · have hne : ¬ (header = [] ∨ settings.xffTrustedHops = 0) := by
      rintro (hnil | hzero)
      · exact hempty hnil
      · omega
    have hlength : settings.xffTrustedHops ≤ (forwardedEntries header).length := by
      rw [hentries, List.length_append, List.length_cons]
      omega
    have hchosen : (forwardedEntries header).getD
        ((forwardedEntries header).length - settings.xffTrustedHops) [] = entry := by
      rw [hentries, ← hhops]
      exact getD_from_right supplied inner entry []
    simp only [trustedEntry, if_neg hne, if_pos hlength, hchosen]

theorem trustedEntry_of_no_hops (hzero : settings.xffTrustedHops = 0) (header : Option Text) :
    trustedEntry library settings header = none := by
  cases header with
  | none => rfl
  | some header => simp only [trustedEntry, hzero, or_true, if_true]

/-- The client's own entries are not looked at. -/
theorem clientIp_eq {entry : Text} {request : Request} (h : Forwarded settings entry request) :
    clientIp library settings request = addressFrom library settings request.client entry := by
  obtain hzero | ⟨header, supplied, inner, hheader, hentries, hhops⟩ := h
  · have hnone : ¬ (1 ≤ settings.xffTrustedHops ∧ stripIpv4Port entry ≠ [] ∧
        (library.ipAddress (stripIpv4Port entry)).isSome) := by
      rintro ⟨hone, -⟩
      omega
    simp only [clientIp, trustedEntry_of_no_hops hzero, addressFrom, if_neg hnone]
  · have hone : 1 ≤ settings.xffTrustedHops := by omega
    simp only [clientIp, hheader, trustedEntry_eq hentries hhops, addressFrom]
    by_cases hvalid : stripIpv4Port entry ≠ [] ∧
        (library.ipAddress (stripIpv4Port entry)).isSome
    · rw [if_pos hvalid, if_pos ⟨hone, hvalid⟩]
    · simp only [if_neg hvalid, if_neg (fun hall => hvalid (And.right hall))]

theorem addressBucket_of_arrives {address : Text} {request : Request}
    (h : Arrives library settings address request) :
    addressBucket library settings request = bucketIp library settings address := by
  obtain ⟨entry, hforwarded, rfl⟩ := h
  rw [addressBucket, clientIp_eq hforwarded]

/-! ## One request -/

def classLimit (settings : Settings) : Class → ℕ
  | .webhook => settings.webhookPerMinute
  | .auth => settings.authPerMinute
  | .llm => settings.llmPerMinute
  | .telemetry => settings.telemetryPerMinute
  | .default => settings.authenticatedPerMinute
  | .unauth => settings.unauthenticatedPerMinute

def classKey (library : Library Address) (provider bearer : Option Text) (ip : Text) : Class → Text
  | .webhook => webhookKey provider ip
  | .auth | .unauth => addressKey ip
  | .llm | .telemetry | .default => bearerKey library bearer ip

theorem resolvePolicy_limit (path method : Text) (bearer : Option Text) (ip : Text) :
    (resolvePolicy library settings path method bearer ip).limit =
      classLimit settings (resolvePolicy library settings path method bearer ip).cls := by
  simp only [resolvePolicy]
  repeat' split
  all_goals rfl

theorem policyOf_key (request : Request) : (policyOf library settings request).key =
    classKey library (webhookProvider request.path) (bearerToken request)
      (addressBucket library settings request) (policyOf library settings request).cls := by
  simp only [policyOf, resolvePolicy]
  repeat' split
  all_goals first | rfl | simp only [classKey, bearerKey, *]

theorem rateLimit_mono (counts : Counts Text) (arrival : ℕ × Request) (key : Text) :
    counts key ≤ (rateLimit library settings counts arrival).2 key := by
  have hle := le_incrAll counts (keysOf settings (policyOf library settings arrival.2)
    (addressBucket library settings arrival.2) (arrival.1 / windowSeconds)) key
  simp only [rateLimit]
  split
  · exact Nat.le_refl _
  · split <;> exact hle

/-- The limit that a key of a request is held to: of its bucket first, then of its address. -/
def limitAt (settings : Settings) (policy : Policy) : ℕ → Option ℕ
  | 0 => some policy.limit
  | 1 => (ceiling settings policy.cls).map Prod.snd
  | _ => none

theorem count_le_of_not_exceeded {policy : Policy} {counts : List ℕ}
    (h : exceededLimit settings policy counts = none) {i limit count : ℕ}
    (hlimit : limitAt settings policy i = some limit) (hcount : counts[i]? = some count) :
    count ≤ limit := by
  have hget : counts.getD i 0 = count := by
    rw [List.getD_eq_getElem?_getD, hcount, Option.getD_some]
  simp only [exceededLimit] at h
  split at h
  · cases h
  · next hbucket =>
    match i with
    | 0 =>
      obtain rfl := Option.some.inj hlimit
      omega
    | 1 =>
      obtain ⟨pair, hpair, rfl⟩ := Option.map_eq_some_iff.mp hlimit
      simp only [hpair] at h
      split at h
      · cases h
      · omega
    | i + 2 => cases hlimit

/-- What is let through has counted its keys up, each within its limit. -/
theorem rateLimit_admitted {counts : Counts Text} {arrival : ℕ × Request}
    (h : (rateLimit library settings counts arrival).1 = .admitted) {i limit : ℕ} {key : Text}
    (hkey : (keysOf settings (policyOf library settings arrival.2)
      (addressBucket library settings arrival.2) (arrival.1 / windowSeconds))[i]? = some key)
    (hlimit : limitAt settings (policyOf library settings arrival.2) i = some limit) :
    counts key < limit ∧ counts key < (rateLimit library settings counts arrival).2 key := by
  simp only [rateLimit] at h ⊢
  split at h
  · cases h
  · next hexempt =>
    rw [if_neg hexempt]
    split at h
    · cases h
    · next hunder =>
      obtain ⟨hi, -⟩ := List.getElem?_eq_some_iff.mp hkey
      rw [← length_incrAll counts] at hi
      have hserved := incrAll_getElem hkey (List.getElem?_eq_getElem hi)
      have hle := count_le_of_not_exceeded hunder hlimit (List.getElem?_eq_getElem hi)
      exact ⟨by omega, hserved.2⟩

/-! ## A sequence of requests -/

/-- How many requests of a kind are let through, of those that `mine` picks out. -/
def admittedOf (mine : ℕ × Request → Bool) (served : List ((ℕ × Request) × Outcome))
    (kind : Request → Bool) : ℕ :=
  served.countP fun s => mine s.1 && s.2 = .admitted && kind s.1.2

def inClass (library : Library Address) (settings : Settings) (classes : List Class)
    (request : Request) : Bool :=
  (policyOf library settings request).cls ∈ classes

variable {counts : Counts Text} {arrivals : List (ℕ × Request)} {mine : ℕ × Request → Bool}
  {kind : Request → Bool} {window : ℕ} {address : Text}

theorem admittedOf_le (i : ℕ) (key : Text) {limit : ℕ}
    (hkind : ∀ a ∈ arrivals, mine a = true → kind a.2 = true →
      (keysOf settings (policyOf library settings a.2) (addressBucket library settings a.2)
        (a.1 / windowSeconds))[i]? = some key ∧
      limitAt settings (policyOf library settings a.2) i = some limit) :
    admittedOf mine (serve (rateLimit library settings) counts arrivals) kind ≤ limit := by
  have hwon (counts : Counts Text) (a : ℕ × Request) (ha : a ∈ arrivals)
      (h : (mine a && (rateLimit library settings counts a).1 = .admitted && kind a.2) = true) :
      counts key < limit ∧ counts key < (rateLimit library settings counts a).2 key := by
    simp only [Bool.and_eq_true, decide_eq_true_eq] at h
    obtain ⟨⟨hpicked, hadmitted⟩, hkinded⟩ := h
    obtain ⟨hkey, hlimit⟩ := hkind a ha hpicked hkinded
    exact rateLimit_admitted hadmitted hkey hlimit
  have hle : admittedOf mine (serve (rateLimit library settings) counts arrivals) kind ≤
      limit - counts key :=
    countP_serve_le (fun counts a => rateLimit_mono counts a key) hwon counts
  exact Nat.le_trans hle (Nat.sub_le _ _)

/-- The ceiling of an address. -/
theorem admittedOf_le_ceiling {cls : Class} {limit : ℕ}
    (hmine : ∀ a ∈ arrivals, mine a = true →
      a.1 / windowSeconds = window ∧ Arrives library settings address a.2)
    (hkind : ∀ request, kind request = true →
      ceiling settings (policyOf library settings request).cls = some (cls, limit)) :
    admittedOf mine (serve (rateLimit library settings) counts arrivals) kind ≤ limit := by
  apply admittedOf_le 1 (ceilingKey cls (bucketIp library settings address) window)
  intro a ha hpicked hkinded
  obtain ⟨hwindow, harrives⟩ := hmine a ha hpicked
  have hceiling := hkind a.2 hkinded
  constructor
  · rw [keysOf, hceiling, hwindow, addressBucket_of_arrives harrives]
    rfl
  · rw [limitAt, hceiling]
    rfl

/-- The limit of a bucket. -/
theorem admittedOf_le_bucket {cls : Class} (key : Text)
    (hmine : ∀ a ∈ arrivals, mine a = true →
      a.1 / windowSeconds = window ∧ Arrives library settings address a.2)
    (hkind : ∀ request, kind request = true → (policyOf library settings request).cls = cls ∧
      classKey library (webhookProvider request.path) (bearerToken request)
        (bucketIp library settings address) cls = key) :
    admittedOf mine (serve (rateLimit library settings) counts arrivals) kind ≤
      classLimit settings cls := by
  apply admittedOf_le 0 (bucketKey cls key window)
  intro a ha hpicked hkinded
  obtain ⟨hwindow, harrives⟩ := hmine a ha hpicked
  obtain ⟨hcls, hkey⟩ := hkind a.2 hkinded
  have hpolicyKey := @policyOf_key Address library settings a.2
  have hlimit : (policyOf library settings a.2).limit = classLimit settings cls := by
    rw [← hcls]
    exact resolvePolicy_limit _ _ _ _
  rw [addressBucket_of_arrives harrives, hcls, hkey] at hpolicyKey
  constructor
  · rw [keysOf, hwindow, hcls, hpolicyKey]
    rfl
  · rw [limitAt, hlimit]

/-- However the bearers, the paths and the entries that the client sends change, the ceilings of its
address hold, and the limit of each of its buckets. -/
theorem rotation_buys_nothing (counts : Counts Text) (arrivals : List (ℕ × Request)) (window : ℕ)
    (address : Text) (mine : ℕ × Request → Bool)
    (hmine : ∀ a ∈ arrivals, mine a = true →
      a.1 / windowSeconds = window ∧ Arrives library settings address a.2) :
    let served := serve (rateLimit library settings) counts arrivals
    admittedOf mine served (inClass library settings [.default, .telemetry]) ≤
        settings.ipPerMinute ∧
      admittedOf mine served (inClass library settings [.webhook]) ≤ settings.webhookIpPerMinute ∧
      admittedOf mine served (inClass library settings [.llm]) ≤ settings.llmIpPerMinute ∧
      (∀ bearer cls, cls ≠ .webhook → admittedOf mine served (fun request =>
        bearerToken request = some bearer && inClass library settings [cls] request) ≤
          classLimit settings cls) ∧
      (∀ bearer provider, admittedOf mine served (fun request =>
        bearerToken request = some bearer && webhookProvider request.path = provider &&
          inClass library settings [.webhook] request) ≤ settings.webhookPerMinute) ∧
      ∀ entry request, Forwarded settings entry request →
        addressBucket library settings request =
          bucketIp library settings (addressFrom library settings request.client entry) := by
  refine ⟨?_, ?_, ?_, ?_, ?_, ?_⟩
  · apply admittedOf_le_ceiling hmine
    intro request hclass
    simp only [inClass, decide_eq_true_eq, List.mem_cons, List.not_mem_nil, or_false] at hclass
    obtain hcls | hcls := hclass <;> rw [hcls] <;> rfl
  · apply admittedOf_le_ceiling hmine
    intro request hclass
    simp only [inClass, decide_eq_true_eq, List.mem_singleton] at hclass
    rw [hclass]
    rfl
  · apply admittedOf_le_ceiling hmine
    intro request hclass
    simp only [inClass, decide_eq_true_eq, List.mem_singleton] at hclass
    rw [hclass]
    rfl
  · intro bearer cls hcls
    apply admittedOf_le_bucket
      (classKey library none (some bearer) (bucketIp library settings address) cls) hmine
    intro request hkind
    simp only [inClass, decide_eq_true_eq, List.mem_singleton, Bool.and_eq_true] at hkind
    refine ⟨hkind.2, ?_⟩
    rw [hkind.1]
    -- outside the webhooks the path plays no part in the key
    cases cls with
    | webhook => exact absurd rfl hcls
    | auth | llm | telemetry | default | unauth => rfl
  · intro bearer provider
    have hbucket := @admittedOf_le_bucket Address library settings counts arrivals mine
      (fun request => bearerToken request = some bearer && webhookProvider request.path = provider &&
        inClass library settings [.webhook] request) window address .webhook
      (webhookKey provider (bucketIp library settings address)) hmine
    apply hbucket
    intro request hkind
    simp only [inClass, decide_eq_true_eq, List.mem_singleton, Bool.and_eq_true] at hkind
    obtain ⟨⟨-, hprovider⟩, hcls⟩ := hkind
    refine ⟨hcls, ?_⟩
    rw [hprovider]
    rfl
  · intro entry request hforwarded
    exact addressBucket_of_arrives ⟨entry, hforwarded, rfl⟩

section Example

def oneAddress : Library Text where
  ipAddress host := if host = "203.0.113.9".toList then some host else none
  version _ := 4
  ipv4Mapped _ := none
  network address _ := address ++ "/32".toList
  sha256 bearer := bearer

def oneEach : Settings where
  enabled := true
  authenticatedPerMinute := 1
  unauthenticatedPerMinute := 1
  webhookPerMinute := 1
  webhookIpPerMinute := 2
  authPerMinute := 1
  llmPerMinute := 1
  llmIpPerMinute := 1
  ipPerMinute := 1
  telemetryPerMinute := 1
  xffTrustedHops := 1
  ipv4Prefix := 32
  ipv6Prefix := 64

/-- Events of two providers with one bearer, the second behind a forged entry. -/
def twoEvents : List (ℕ × Request) :=
  [("adf", ""), ("airflow", "198.51.100.7, ")].map fun (provider, forged) => (0, {
    method := "POST".toList
    path := webhookPrefix ++ provider.toList
    origin := false
    accessControlRequestMethod := false
    authorization := "Bearer t".toList
    forwardedFor := some (forged.toList ++ "203.0.113.9".toList)
    client := some "10.0.0.1".toList })

theorem twoEvents_arrive (a : ℕ × Request) (ha : a ∈ twoEvents) :
    a.1 / windowSeconds = 0 ∧ Arrives oneAddress oneEach "203.0.113.9".toList a.2 := by
  simp only [twoEvents, List.map_cons, List.map_nil, List.mem_cons, List.not_mem_nil, or_false] at ha
  obtain rfl | rfl := ha
  · exact ⟨rfl, "203.0.113.9".toList, .inr ⟨_, [], [], rfl, by decide, rfl⟩, by decide⟩
  · exact ⟨rfl, "203.0.113.9".toList,
      .inr ⟨_, ["198.51.100.7".toList], [], rfl, by decide, rfl⟩, by decide⟩

theorem rotation_buys_nothing_twoEvents :
    admittedOf (fun _ => true) (serve (rateLimit oneAddress oneEach) (fun _ => 0) twoEvents)
      (inClass oneAddress oneEach [.webhook]) ≤ 2 :=
  (rotation_buys_nothing (fun _ => 0) twoEvents 0 "203.0.113.9".toList (fun _ => true)
    fun a ha _ => twoEvents_arrive a ha).2.1

/-- In the webhook class a bearer has the limit over again for each provider. -/
theorem webhook_limit_is_per_provider :
    classLimit oneEach .webhook = 1 ∧
      admittedOf (fun _ => true) (serve (rateLimit oneAddress oneEach) (fun _ => 0) twoEvents)
        (fun request => bearerToken request = some "t".toList &&
          inClass oneAddress oneEach [.webhook] request) = 2 := by
  decide

end Example

end DataQ.RateLimit
