import DataQ.Otp.Guesses

/-! # One live code for an address

The superseding `UPDATE` of a request sees only the codes committed before it: two requests for one
address that both supersede before either commits leave two live codes. Where no code of the address
is issued between a request's `UPDATE` and its commit, the unconsumed code of an address is the one
issued last. -/

namespace DataQ.Otp
open DataQ.Locking DataQ.Interleaving DataQ.Transition
set_option autoImplicit false

variable {ι : Type*} {hashCode : String → String} {s t : Store ι}

/-- The code issued last for an address. -/
def lastIssued (email : String) : List Fact → Option ℕ
  | [] => none
  | .issued id e :: history => if e = email then some id else lastIssued email history
  | .compared _ _ :: history => lastIssued email history
  | .redeemed _ _ _ :: history => lastIssued email history

/-- A superseded code is dead, as far as a store and its record show. -/
structure SupersededDead (s : Store ι) : Prop where
  ids : (s.codes.map OtpCode.id).Nodup
  one_live : ∀ r ∈ s.codes, ∀ r' ∈ s.codes, r.email = r'.email → r.live s.now → r'.live s.now →
    r = r'
  guesses : ∀ id, ((comparisons s.history).filter fun p => p.1 = id).length ≤ maxAttempts
  once : ∀ id, (redemptions s.history).count id ≤ 1
  unexpired : ∀ id email presentedAt, Fact.redeemed id email presentedAt ∈ s.history →
    ∃ r ∈ s.codes, r.id = id ∧ r.email = email ∧ presentedAt < r.expiresAt
  newest : ∀ later earlier id email presentedAt,
    s.history = later ++ .redeemed id email presentedAt :: earlier →
      lastIssued email earlier = some id

/-- A request that commits its code finds no code of the address issued since its `UPDATE`. -/
def Uncontested (c : World ι) (e : ι × Act) : Prop :=
  match e.2, c.session e.1 with
  | .issue _, .superseding email _ _ seen _ _ =>
    ∀ r ∈ c.store.codes, r.email = email → r.id < seen
  | _, _ => True

instance (c : World ι) (e : ι × Act) : Decidable (Uncontested c e) := by
  unfold Uncontested
  split <;> infer_instance

/-- An unconsumed code is the one issued last for its address, and so was each redeemed code when it
was redeemed. -/
structure Latest (s : Store ι) : Prop where
  unconsumed : ∀ r ∈ s.codes, r.unconsumed → lastIssued r.email s.history = some r.id
  redeemed : ∀ later earlier id email presentedAt,
    s.history = later ++ .redeemed id email presentedAt :: earlier →
      lastIssued email earlier = some id

theorem latest_initial : Latest (World.initial : World ι).store where
  unconsumed := fun _ hr => by cases hr
  redeemed := fun later earlier _ _ _ h => by simp [World.initial] at h

/-- Rows that only lose their standing keep it. -/
theorem Latest.of_rows (h : Latest s)
    (hrows : ∀ r' ∈ t.codes, ∃ r ∈ s.codes, r.Becomes r') (hhistory : t.history = s.history) :
    Latest t where
  unconsumed := by
    intro r' hr' hun
    obtain ⟨r, hr, hbecomes⟩ := hrows r' hr'
    rw [hhistory, hbecomes.email, hbecomes.id]
    exact h.unconsumed r hr (hbecomes.unconsumed hun)
  redeemed := fun later earlier id email presentedAt heq =>
    h.redeemed later earlier id email presentedAt (hhistory ▸ heq)

theorem exists_of_mem_updateCode {codes : List OtpCode} {id : ℕ} {change : OtpCode → OtpCode}
    (hchange : ∀ r : OtpCode, r.Becomes (change r)) {r' : OtpCode}
    (hr' : r' ∈ updateCode codes id change) : ∃ r ∈ codes, r.Becomes r' := by
  obtain ⟨r, hr, rfl⟩ := List.mem_map.mp hr'
  refine ⟨r, hr, ?_⟩
  split
  · exact hchange r
  · exact .refl r

/-- A redemption recorded at the head or before. -/
theorem redeemed_cons {fact : Fact} {history later earlier : List Fact} {id presentedAt : ℕ}
    {email : String} (hne : ∀ id email presentedAt, fact ≠ .redeemed id email presentedAt)
    (h : fact :: history = later ++ .redeemed id email presentedAt :: earlier) :
    ∃ later', history = later' ++ .redeemed id email presentedAt :: earlier := by
  cases later with
  | nil => exact absurd (List.cons.inj h).1 (hne _ _ _)
  | cons f later => exact ⟨later, (List.cons.inj h).2⟩

theorem Latest.compare (h : Latest s) (id attempts : ℕ) :
    Latest { s with history := .compared id attempts :: s.history } where
  unconsumed := fun r hr hun => h.unconsumed r hr hun
  redeemed := by
    intro later earlier id' email presentedAt heq
    obtain ⟨later', heq'⟩ := redeemed_cons (fun _ _ _ => by simp) heq
    exact h.redeemed later' earlier id' email presentedAt heq'

theorem Latest.consume (h : Latest s) {row : OtpCode} {now : ℕ} (hrow : row ∈ s.codes)
    (hun : row.unconsumed) :
    Latest { s with
      codes := updateCode s.codes row.id fun r => r.consume now
      history := .redeemed row.id row.email now :: s.history } where
  unconsumed := by
    intro r' hr' hun'
    obtain ⟨r, hr, hbecomes⟩ := exists_of_mem_updateCode (fun r => .consume r now) hr'
    show lastIssued r'.email s.history = some r'.id
    rw [hbecomes.email, hbecomes.id]
    exact h.unconsumed r hr (hbecomes.unconsumed hun')
  redeemed := by
    intro later earlier id email presentedAt heq
    cases later with
    | nil =>
      obtain ⟨hfact, rfl⟩ := List.cons.inj heq
      obtain ⟨rfl, rfl, -⟩ : row.id = id ∧ row.email = email ∧ now = presentedAt := by
        simpa using hfact
      exact h.unconsumed row hrow hun
    | cons fact later =>
      exact h.redeemed later earlier id email presentedAt (List.cons.inj heq).2

variable [DecidableEq ι]

theorem Latest.issue (h : Latest s) (i : ι) {email : String} {startedAt now seen : ℕ}
    {locked : List ℕ} (code : String)
    (hstands : Stands s (.superseding email startedAt now seen [] locked))
    (hseen : ∀ r ∈ s.codes, r.email = email → r.id < seen) :
    Latest (s.issue hashCode i email code startedAt now locked) where
  unconsumed := by
    intro r' hr' hun
    show (if email = r'.email then some s.nextId else lastIssued r'.email s.history) = some r'.id
    rcases List.mem_append.mp hr' with hr' | hr'
    · obtain ⟨r, hr, rfl⟩ := List.mem_map.mp hr'
      split at hun
      · exact absurd hun (not_unconsumed_consume r now)
      · next hlocked =>
        rw [if_neg hlocked]
        have hother : email ≠ r.email := by
          intro heq
          have hwas := hstands.2 r hr heq.symm (hseen r hr heq.symm) hun
          simp [hlocked] at hwas
        rw [if_neg hother]
        exact h.unconsumed r hr hun
    · have hnew := List.mem_singleton.mp hr'
      rw [hnew, if_pos rfl]
  redeemed := by
    intro later earlier id email' presentedAt heq
    obtain ⟨later', heq'⟩ := redeemed_cons (fun _ _ _ => by simp) heq
    exact h.redeemed later' earlier id email' presentedAt heq'

theorem Moves.latest {i : ι} {a : Act} {pc pc' : Pc} (h : Moves hashCode i s a pc t pc')
    (hlatest : Latest s) (hstands : Stands s pc)
    (hseen : ∀ code email startedAt now seen todo locked, a = .issue code →
      pc = .superseding email startedAt now seen todo locked →
        ∀ r ∈ s.codes, r.email = email → r.id < seen) : Latest t := by
  cases h with
  | quiet hcodes _ hhistory =>
    exact hlatest.of_rows (fun r hr => ⟨r, hcodes ▸ hr, .refl r⟩) hhistory
  | supersede => exact hlatest
  | lock hcodes _ hhistory =>
    exact hlatest.of_rows (fun r hr => ⟨r, hcodes ▸ hr, .refl r⟩) hhistory
  | issue => exact hlatest.issue i _ hstands (hseen _ _ _ _ _ _ _ rfl rfl)
  | charge => exact hlatest.of_rows (fun r hr => exists_of_mem_updateCode .charge hr) rfl
  | compare => exact hlatest.compare _ _
  | consume hrow hun => exact hlatest.consume hrow hun

theorem latest_step {c d : World ι} {e : ι × Act} (h : Accounted c) (hlatest : Latest c.store)
    (hseen : Uncontested c e) (hstep : step hashCode c e = some d) : Latest d.store := by
  obtain ⟨⟨t, pc'⟩, hact, rfl⟩ := step_eq_some.mp hstep
  refine (moves_act hact).latest hlatest (h.stands e.1) ?_
  intro code email startedAt now seen todo locked ha hpc
  rw [Uncontested, ha, hpc] at hseen
  exact hseen

omit [DecidableEq ι] in
theorem supersededDead (hbooked : Booked s) (hlatest : Latest s) : SupersededDead s where
  ids := hbooked.ids
  one_live := by
    intro r hr r' hr' hemail hlive hlive'
    have hun : r.unconsumed := (Bool.and_eq_true _ _ ▸ hlive).1
    have hun' : r'.unconsumed := (Bool.and_eq_true _ _ ▸ hlive').1
    have hlast := hlatest.unconsumed r hr hun
    rw [hemail, hlatest.unconsumed r' hr' hun'] at hlast
    exact hbooked.same hr hr' (Option.some.inj hlast).symm
  guesses := hbooked.guesses_le
  once := hbooked.redeemed_once
  unexpired := by
    intro id email presentedAt hmem
    obtain ⟨r, hr, hid, hemail, -, hpresented⟩ := hbooked.redeemed id email presentedAt hmem
    exact ⟨r, hr, hid, hemail, hpresented⟩
  newest := hlatest.redeemed

/-- In every run whose requests commit their codes uncontested. -/
theorem superseded_code_dead_of_uncontested (hashCode : String → String) {es : List (ι × Act)}
    {c : World ι} (hmeets : Meets (step hashCode) Uncontested World.initial es)
    (hrun : run (step hashCode) World.initial es = some c) : SupersededDead c.store := by
  have hstep : ∀ (c : World ι) (e : ι × Act) (d : World ι), Accounted c ∧ Latest c.store →
      Uncontested c e → step hashCode c e = some d → Accounted d ∧ Latest d.store :=
    fun c e d hc hG hstep => ⟨hc.1.step hstep, latest_step hc.1 hc.2 hG hstep⟩
  have h := run_invariant hstep ⟨accounted_initial, latest_initial⟩ hmeets hrun
  exact supersededDead h.1.booked h.2

/-- SHA-256 on the two codes below. -/
def digests (code : String) : String :=
  if code = "483920" then "071f97a1ab45c19616fa06540dfede556067f0c92246580e6a01cff457635f2d"
  else if code = "175502" then "864ae057fb2e9223834dc596852a8b0e333589be037574ea25b2df84fefb168b"
  else ""

/-- A code is requested, requested again and then redeemed. -/
def rerequested : List (ℕ × Act) :=
  [(0, .request "ana@example.com"), (0, .supersede), (0, .issue "483920"), (0, .tick),
    (1, .request "ana@example.com"), (1, .supersede), (1, .lock), (1, .issue "175502"),
    (2, .verify "ana@example.com" "175502"), (2, .select 1), (2, .charge), (2, .compare),
    (2, .consume)]

theorem superseded_code_dead_of_uncontested_rerequested :
    ∃ c : World ℕ, run (step digests) World.initial rerequested = some c ∧
      .redeemed 1 "ana@example.com" 1 ∈ c.store.history ∧ SupersededDead c.store := by
  have hrun : (run (step digests) (World.initial : World ℕ) rerequested).any fun c =>
      decide (.redeemed 1 "ana@example.com" 1 ∈ c.store.history) := by decide
  obtain ⟨c, hc, hmem⟩ := (Option.any_eq_true _ _).mp hrun
  have hmeets : Meets (step digests) Uncontested (World.initial : World ℕ) rerequested := by
    decide
  exact ⟨c, hc, of_decide_eq_true hmem, superseded_code_dead_of_uncontested digests hmeets hc⟩

/-- Two requests for an address supersede before either commits. -/
def requestedTwice : List (ℕ × Act) :=
  [(0, .request "ana@example.com"), (1, .request "ana@example.com"), (0, .supersede),
    (1, .supersede), (0, .issue "483920"), (1, .issue "175502")]

theorem two_live_codes_of_two_requests :
    ∃ c : World ℕ, run (step digests) World.initial requestedTwice = some c ∧
      ¬ SupersededDead c.store := by
  have hrun : (run (step digests) (World.initial : World ℕ) requestedTwice).any fun c =>
      decide (∃ r ∈ c.store.codes, ∃ r' ∈ c.store.codes, r.email = r'.email ∧
        r.live c.store.now ∧ r'.live c.store.now ∧ r ≠ r') := by decide
  obtain ⟨c, hc, htwo⟩ := (Option.any_eq_true _ _).mp hrun
  obtain ⟨r, hr, r', hr', hemail, hlive, hlive', hne⟩ := of_decide_eq_true htwo
  exact ⟨c, hc, fun hdead => hne (hdead.one_live r hr r' hr' hemail hlive hlive')⟩

end DataQ.Otp
