import DataQ.Otp.Codes
import Mathlib.Data.List.Perm.Subperm

/-! # The accounting of guesses and redemptions

Whatever order the statements of requests and verifications come in, a guess is compared under an
attempt number that no other guess at the code has, and only a code that is not consumed is
redeemed, which consumes it. -/

namespace DataQ.Otp
open DataQ.Locking DataQ.Interleaving
set_option autoImplicit false

variable {ι : Type*} {hashCode : String → String} {s t : Store ι}

/-- The codes compared so far, with the number of the attempt. -/
def comparisons (history : List Fact) : List (ℕ × ℕ) :=
  history.filterMap fun
    | .compared id attempt => some (id, attempt)
    | _ => none

def redemptions (history : List Fact) : List ℕ :=
  history.filterMap fun
    | .redeemed id _ _ => some id
    | _ => none

@[simp] theorem comparisons_nil : comparisons [] = [] := rfl

@[simp] theorem comparisons_issued (id : ℕ) (email : String) (h : List Fact) :
    comparisons (.issued id email :: h) = comparisons h := rfl

@[simp] theorem comparisons_compared (id attempt : ℕ) (h : List Fact) :
    comparisons (.compared id attempt :: h) = (id, attempt) :: comparisons h := rfl

@[simp] theorem comparisons_redeemed (id presentedAt : ℕ) (email : String) (h : List Fact) :
    comparisons (.redeemed id email presentedAt :: h) = comparisons h := rfl

@[simp] theorem redemptions_nil : redemptions [] = [] := rfl

@[simp] theorem redemptions_issued (id : ℕ) (email : String) (h : List Fact) :
    redemptions (.issued id email :: h) = redemptions h := rfl

@[simp] theorem redemptions_compared (id attempt : ℕ) (h : List Fact) :
    redemptions (.compared id attempt :: h) = redemptions h := rfl

@[simp] theorem redemptions_redeemed (id presentedAt : ℕ) (email : String) (h : List Fact) :
    redemptions (.redeemed id email presentedAt :: h) = id :: redemptions h := rfl

theorem exists_of_mem_redemptions {history : List Fact} {id : ℕ} (h : id ∈ redemptions history) :
    ∃ email presentedAt, Fact.redeemed id email presentedAt ∈ history := by
  obtain ⟨fact, hfact, hid⟩ := List.mem_filterMap.mp h
  split at hid
  · next email presentedAt =>
    cases hid
    exact ⟨email, presentedAt, hfact⟩
  · cases hid

/-- The guess a session is about to compare. -/
def Pc.guess : Pc → Option (ℕ × ℕ)
  | .comparing id _ _ attempts _ _ => some (id, attempts)
  | _ => none

theorem Pc.guess_quiet {pc : Pc} (h : pc.quiet) : pc.guess = none := by
  cases pc with
  | comparing => cases h
  | _ => rfl

/-- What a session knows of the rows. The codes of a superseding request's snapshot are consumed,
updated by it or still to be. -/
def Stands (s : Store ι) : Pc → Prop
  | .superseding email _ _ seen todo locked => seen ≤ s.nextId ∧
    ∀ r ∈ s.codes, r.email = email → r.id < seen → r.unconsumed → r.id ∈ todo ∨ r.id ∈ locked
  | .comparing id _ _ attempts _ expiresAt => (id, attempts) ∉ comparisons s.history ∧
    ∃ r ∈ s.codes, r.id = id ∧ 1 ≤ attempts ∧ attempts ≤ r.attempts ∧ expiresAt = r.expiresAt
  | .consuming id now => ∃ r ∈ s.codes, r.id = id ∧ now < r.expiresAt
  | _ => True

theorem stands_quiet {pc : Pc} (h : pc.quiet) : Stands s pc := by
  cases pc with
  | superseding => cases h
  | comparing => cases h
  | consuming => cases h
  | _ => trivial

theorem Stands.evolves {pc : Pc} (h : Stands s pc) (hevolves : Evolves s t)
    (hguess : ∀ p, pc.guess = some p → p ∈ comparisons t.history →
      p ∈ comparisons s.history) : Stands t pc := by
  cases pc with
  | superseding email startedAt now seen todo locked =>
    refine ⟨Nat.le_trans h.1 hevolves.nextId, fun r' hr' hemail hseen hun => ?_⟩
    rcases hevolves.origin r' hr' with ⟨r, hr, hbecomes⟩ | hnew
    · rw [hbecomes.id] at hseen ⊢
      exact h.2 r hr (hbecomes.email ▸ hemail) hseen (hbecomes.unconsumed hun)
    · have hold := h.1
      omega
  | comparing id code now attempts codeHash expiresAt =>
    obtain ⟨hnot, r, hr, hid, hone, hle, hexpires⟩ := h
    obtain ⟨r', hr', hbecomes⟩ := hevolves.kept r hr
    refine ⟨fun hmem => hnot (hguess _ rfl hmem), r', hr', hbecomes.id.trans hid, hone,
      Nat.le_trans hle hbecomes.attempts, hexpires.trans hbecomes.expiresAt.symm⟩
  | consuming id now =>
    obtain ⟨r, hr, hid, hnow⟩ := h
    obtain ⟨r', hr', hbecomes⟩ := hevolves.kept r hr
    exact ⟨r', hr', hbecomes.id.trans hid, hbecomes.expiresAt ▸ hnow⟩
  | _ => trivial

/-- The books of the store: rows are known by their ids, what is recorded is borne out by them. -/
structure Booked (s : Store ι) : Prop where
  ids : (s.codes.map OtpCode.id).Nodup
  fresh : ∀ r ∈ s.codes, r.id < s.nextId
  compared_nodup : (comparisons s.history).Nodup
  compared : ∀ p ∈ comparisons s.history, p.2 ≤ maxAttempts ∧
    ∃ r ∈ s.codes, r.id = p.1 ∧ 1 ≤ p.2 ∧ p.2 ≤ r.attempts
  redeemed_nodup : (redemptions s.history).Nodup
  redeemed : ∀ id email presentedAt, Fact.redeemed id email presentedAt ∈ s.history →
    ∃ r ∈ s.codes, r.id = id ∧ r.email = email ∧ ¬ r.unconsumed ∧ presentedAt < r.expiresAt

theorem Booked.same (h : Booked s) {r r' : OtpCode} (hr : r ∈ s.codes) (hr' : r' ∈ s.codes)
    (hid : r.id = r'.id) : r = r' :=
  List.inj_on_of_nodup_map h.ids hr hr' hid

theorem Booked.compared_evolves (h : Booked s) (hevolves : Evolves s t) {p : ℕ × ℕ}
    (hp : p ∈ comparisons s.history) : p.2 ≤ maxAttempts ∧
      ∃ r ∈ t.codes, r.id = p.1 ∧ 1 ≤ p.2 ∧ p.2 ≤ r.attempts := by
  obtain ⟨hmax, r, hr, hid, hone, hle⟩ := h.compared p hp
  obtain ⟨r', hr', hbecomes⟩ := hevolves.kept r hr
  exact ⟨hmax, r', hr', hbecomes.id.trans hid, hone, Nat.le_trans hle hbecomes.attempts⟩

theorem Booked.redeemed_evolves (h : Booked s) (hevolves : Evolves s t) {id presentedAt : ℕ}
    {email : String} (hmem : Fact.redeemed id email presentedAt ∈ s.history) :
    ∃ r ∈ t.codes, r.id = id ∧ r.email = email ∧ ¬ r.unconsumed ∧ presentedAt < r.expiresAt := by
  obtain ⟨r, hr, hid, hemail, hconsumed, hpresented⟩ := h.redeemed id email presentedAt hmem
  obtain ⟨r', hr', hbecomes⟩ := hevolves.kept r hr
  exact ⟨r', hr', hbecomes.id.trans hid, hbecomes.email.trans hemail,
    fun hun => hconsumed (hbecomes.unconsumed hun), hbecomes.expiresAt ▸ hpresented⟩

theorem updateCode_ids (codes : List OtpCode) (id : ℕ) {change : OtpCode → OtpCode}
    (hchange : ∀ r : OtpCode, (change r).id = r.id) :
    (updateCode codes id change).map OtpCode.id = codes.map OtpCode.id := by
  rw [updateCode, List.map_map]
  apply List.map_congr_left
  intro r _
  rw [Function.comp_apply]
  split
  · exact hchange r
  · rfl

theorem issue_ids [DecidableEq ι] (i : ι) (email code : String) (startedAt now : ℕ)
    (locked : List ℕ) : (s.issue hashCode i email code startedAt now locked).codes.map OtpCode.id =
      s.codes.map OtpCode.id ++ [s.nextId] := by
  rw [Store.issue, List.map_append, List.map_map]
  congr 1
  apply List.map_congr_left
  intro r _
  rw [Function.comp_apply]
  split <;> rfl

theorem mem_updateCode {codes : List OtpCode} {change : OtpCode → OtpCode} {row : OtpCode}
    (hrow : row ∈ codes) (hun : row.unconsumed) : change row ∈ updateCode codes row.id change :=
  List.mem_map.mpr ⟨row, hrow, by simp [hun]⟩

theorem Booked.of_rows (h : Booked s) (hevolves : Evolves s t)
    (hids : t.codes.map OtpCode.id = s.codes.map OtpCode.id) (hnext : t.nextId = s.nextId)
    (hhistory : t.history = s.history) : Booked t where
  ids := hids ▸ h.ids
  fresh := by
    intro r hr
    have hid : r.id ∈ s.codes.map OtpCode.id := hids ▸ List.mem_map_of_mem hr
    obtain ⟨r', hr', heq⟩ := List.mem_map.mp hid
    rw [hnext, ← heq]
    exact h.fresh r' hr'
  compared_nodup := hhistory ▸ h.compared_nodup
  compared := fun p hp => h.compared_evolves hevolves (hhistory ▸ hp)
  redeemed_nodup := hhistory ▸ h.redeemed_nodup
  redeemed := fun _ _ _ hmem => h.redeemed_evolves hevolves (hhistory ▸ hmem)

theorem Booked.compare (h : Booked s) {id now attempts expiresAt : ℕ} {code codeHash : String}
    (hattempts : attempts ≤ maxAttempts)
    (hstands : Stands s (.comparing id code now attempts codeHash expiresAt)) :
    Booked { s with history := .compared id attempts :: s.history } where
  ids := h.ids
  fresh := h.fresh
  compared_nodup := List.nodup_cons.mpr ⟨hstands.1, h.compared_nodup⟩
  compared := by
    intro p hp
    rcases List.mem_cons.mp hp with rfl | hp
    · obtain ⟨r, hr, hid, hone, hle, -⟩ := hstands.2
      exact ⟨hattempts, r, hr, hid, hone, hle⟩
    · exact h.compared p hp
  redeemed_nodup := h.redeemed_nodup
  redeemed := by
    intro id' email presentedAt hmem
    exact h.redeemed id' email presentedAt (by simpa using hmem)

theorem Booked.not_redeemed (h : Booked s) {row : OtpCode} (hrow : row ∈ s.codes)
    (hun : row.unconsumed) : row.id ∉ redemptions s.history := by
  intro hmem
  obtain ⟨email, presentedAt, hfact⟩ := exists_of_mem_redemptions hmem
  obtain ⟨r, hr, hid, -, hconsumed, -⟩ := h.redeemed _ _ _ hfact
  exact hconsumed (h.same hr hrow hid ▸ hun)

/-- Guesses at one code have different attempt numbers, none above the maximum. -/
theorem Booked.guesses_le (h : Booked s) (id : ℕ) :
    ((comparisons s.history).filter fun p => p.1 = id).length ≤ maxAttempts := by
  have hnodup := h.compared_nodup.filter fun p => p.1 = id
  have hnumbers : (((comparisons s.history).filter fun p => p.1 = id).map Prod.snd).Nodup := by
    refine List.Nodup.map_on (fun p hp q hq heq => ?_) hnodup
    have hpid : p.1 = id := by simpa using (List.mem_filter.mp hp).2
    have hqid : q.1 = id := by simpa using (List.mem_filter.mp hq).2
    exact Prod.ext (hpid.trans hqid.symm) heq
  have hsub : ((comparisons s.history).filter fun p => p.1 = id).map Prod.snd ⊆
      List.range' 1 maxAttempts := by
    intro attempt hattempt
    obtain ⟨p, hp, rfl⟩ := List.mem_map.mp hattempt
    obtain ⟨hmax, _, _, _, hone, _⟩ := h.compared p (List.mem_filter.mp hp).1
    rw [List.mem_range'_1]
    omega
  have hlength := (List.subperm_of_subset hnumbers hsub).length_le
  simpa using hlength

theorem Booked.redeemed_once (h : Booked s) (id : ℕ) : (redemptions s.history).count id ≤ 1 :=
  List.nodup_iff_count_le_one.mp h.redeemed_nodup id

theorem Booked.consume (h : Booked s) {now : ℕ} {row : OtpCode} (hrow : row ∈ s.codes)
    (hun : row.unconsumed) (hstands : Stands s (.consuming row.id now))
    (hcodes : t.codes = updateCode s.codes row.id fun r => r.consume now)
    (hnext : t.nextId = s.nextId)
    (hhistory : t.history = .redeemed row.id row.email now :: s.history) : Booked t := by
  have hevolves : Evolves s t := .updateCode (fun r => .consume r now) hnext hcodes
  have hids : t.codes.map OtpCode.id = s.codes.map OtpCode.id := by
    rw [hcodes]
    exact updateCode_ids s.codes row.id fun _ => rfl
  have hrows : Booked { t with history := s.history } :=
    h.of_rows ⟨hevolves.nextId, hevolves.kept, hevolves.origin⟩ hids hnext rfl
  refine ⟨hrows.ids, hrows.fresh, ?_, ?_, ?_, ?_⟩
  · simpa [hhistory] using h.compared_nodup
  · intro p hp
    rw [hhistory] at hp
    exact h.compared_evolves hevolves hp
  · rw [hhistory]
    exact List.nodup_cons.mpr ⟨h.not_redeemed hrow hun, h.redeemed_nodup⟩
  · intro id email presentedAt hmem
    rw [hhistory] at hmem
    rcases List.mem_cons.mp hmem with heq | hmem
    · obtain ⟨rfl, rfl, rfl⟩ : id = row.id ∧ email = row.email ∧ presentedAt = now := by
        simpa using heq
      obtain ⟨r, hr, hid, hnow⟩ := hstands
      have hrow' : row.consume presentedAt ∈ updateCode s.codes row.id fun r =>
          r.consume presentedAt := mem_updateCode hrow hun
      refine ⟨row.consume presentedAt, hcodes ▸ hrow', rfl, rfl, not_unconsumed_consume _ _, ?_⟩
      exact h.same hr hrow hid ▸ hnow
    · exact h.redeemed_evolves hevolves hmem

variable [DecidableEq ι]

theorem Booked.issue (h : Booked s) (i : ι) (email code : String) (startedAt now : ℕ)
    (locked : List ℕ) : Booked (s.issue hashCode i email code startedAt now locked) := by
  have hevolves : Evolves s (s.issue hashCode i email code startedAt now locked) :=
    (Moves.issue : Moves hashCode i s (.issue code)
      (.superseding email startedAt now 0 [] locked) _ _).evolves
  have hids : (s.issue hashCode i email code startedAt now locked).codes.map OtpCode.id =
      s.codes.map OtpCode.id ++ [s.nextId] := issue_ids i email code startedAt now locked
  refine ⟨?_, fun r hr => ?_, h.compared_nodup, fun p hp => h.compared_evolves hevolves hp,
    h.redeemed_nodup, fun _ _ _ hmem => h.redeemed_evolves hevolves ?_⟩
  · rw [hids, List.nodup_append]
    refine ⟨h.ids, by simp, fun id hid id' hid' => ?_⟩
    obtain ⟨r, hr, rfl⟩ := List.mem_map.mp hid
    have hlt := h.fresh r hr
    have heq : id' = s.nextId := by simpa using hid'
    omega
  · have hid : r.id ∈ s.codes.map OtpCode.id ++ [s.nextId] := hids ▸ List.mem_map_of_mem hr
    show r.id < s.nextId + 1
    rcases List.mem_append.mp hid with hid | hid
    · obtain ⟨r', hr', heq⟩ := List.mem_map.mp hid
      have hlt := h.fresh r' hr'
      omega
    · have heq : r.id = s.nextId := by simpa using hid
      omega
  · simpa [Store.issue] using hmem

theorem Moves.booked {i : ι} {a : Act} {pc pc' : Pc} (h : Moves hashCode i s a pc t pc')
    (hbooked : Booked s) (hstands : Stands s pc) : Booked t := by
  have hevolves := h.evolves
  cases h with
  | quiet hcodes hnext hhistory =>
    exact hbooked.of_rows hevolves (by rw [hcodes]) hnext hhistory
  | supersede => exact hbooked
  | lock hcodes hnext hhistory =>
    exact hbooked.of_rows hevolves (by rw [hcodes]) hnext hhistory
  | issue => exact hbooked.issue i _ _ _ _ _
  | charge => exact hbooked.of_rows hevolves (updateCode_ids _ _ fun _ => rfl) rfl rfl
  | compare hattempts => exact hbooked.compare hattempts hstands
  | consume hrow hun => exact hbooked.consume hrow hun hstands rfl rfl rfl

theorem Moves.comparisons {i : ι} {a : Act} {pc pc' : Pc} (h : Moves hashCode i s a pc t pc')
    {p : ℕ × ℕ} (hp : p ∈ comparisons t.history) :
    p ∈ comparisons s.history ∨ pc.guess = some p := by
  cases h with
  | quiet _ _ hhistory => exact .inl (hhistory ▸ hp)
  | supersede => exact .inl hp
  | lock _ _ hhistory => exact .inl (hhistory ▸ hp)
  | issue => exact .inl hp
  | charge => exact .inl hp
  | compare =>
    rcases List.mem_cons.mp hp with rfl | hp
    · exact .inr rfl
    · exact .inl hp
  | consume => exact .inl hp

/-- A new guess takes the next attempt number of its code. -/
theorem Moves.guess {i : ι} {a : Act} {pc pc' : Pc} (h : Moves hashCode i s a pc t pc')
    {p : ℕ × ℕ} (hp : pc'.guess = some p) :
    pc.guess = some p ∨ ∃ row ∈ s.codes, p = (row.id, row.attempts + 1) := by
  cases h with
  | quiet _ _ _ hpc =>
    rcases hpc with rfl | hquiet
    · exact .inl hp
    · rw [Pc.guess_quiet hquiet] at hp
      cases hp
  | supersede => cases hp
  | lock => cases hp
  | issue => cases hp
  | charge hrow =>
    refine .inr ⟨_, hrow, ?_⟩
    exact (Option.some.inj hp).symm
  | compare _ _ hpc =>
    rcases hpc with rfl | hquiet
    · cases hp
    · rw [Pc.guess_quiet hquiet] at hp
      cases hp
  | consume => cases hp

theorem Moves.stands {i : ι} {a : Act} {pc pc' : Pc} (h : Moves hashCode i s a pc t pc')
    (hbooked : Booked s) (hstands : Stands s pc) : Stands t pc' := by
  have hevolves := h.evolves
  cases h with
  | quiet _ _ hhistory hpc =>
    rcases hpc with rfl | hquiet
    · exact hstands.evolves hevolves fun p _ hp => hhistory ▸ hp
    · exact stands_quiet hquiet
  | supersede =>
    refine ⟨Nat.le_refl _, fun r hr hemail _ hun => .inl (List.mem_map_of_mem ?_)⟩
    exact List.mem_filter.mpr ⟨hr, by simp [hemail, hun]⟩
  | lock hcodes hnext _ hlocked =>
    refine ⟨hnext ▸ hstands.1, fun r hr hemail hseen hun => ?_⟩
    rw [hcodes] at hr
    have hwas := hstands.2 r hr hemail hseen hun
    rcases hlocked with rfl | ⟨rfl, hgone⟩
    · simp only [List.mem_cons] at hwas ⊢
      tauto
    · have hne := fun heq => hgone r hr heq hun
      simp only [List.mem_cons] at hwas
      tauto
  | issue => trivial
  | @charge _ _ row hrow hun =>
    refine ⟨fun hmem => ?_, row.charge, mem_updateCode hrow hun, rfl, Nat.le_add_left _ _,
      Nat.le_refl _, rfl⟩
    obtain ⟨-, r, hr, hid, -, hle⟩ := hbooked.compared _ hmem
    rw [hbooked.same hr hrow hid] at hle
    omega
  | compare _ hexpires hpc =>
    rcases hpc with rfl | hquiet
    · obtain ⟨-, r, hr, hid, -, -, heq⟩ := hstands
      exact ⟨r, hr, hid, heq ▸ hexpires⟩
    · exact stands_quiet hquiet
  | consume => trivial

/-- The books are kept, every session stands where they say, and no two are about to compare
under one attempt number. -/
structure Accounted (c : World ι) : Prop where
  booked : Booked c.store
  stands : ∀ j, Stands c.store (c.session j)
  apart : ∀ j k p, j ≠ k → (c.session j).guess = some p → (c.session k).guess ≠ some p

omit [DecidableEq ι] in
theorem accounted_initial : Accounted (World.initial : World ι) where
  booked := by constructor <;> simp [World.initial]
  stands := fun _ => trivial
  apart := fun _ _ _ _ h => by cases h

theorem Accounted.step {c d : World ι} {e : ι × Act} (h : Accounted c)
    (hstep : step hashCode c e = some d) : Accounted d := by
  obtain ⟨⟨t, pc'⟩, hact, rfl⟩ := step_eq_some.mp hstep
  have hmoves := moves_act hact
  have hnew : ∀ k p, k ≠ e.1 → pc'.guess = some p → (c.session k).guess ≠ some p := by
    intro k p hk hp hother
    rcases hmoves.guess hp with hold | ⟨row, hrow, rfl⟩
    · exact h.apart e.1 k p hk.symm hold hother
    · have hstands := h.stands k
      cases hpc : c.session k with
      | comparing id code now attempts codeHash expiresAt =>
        rw [hpc] at hstands hother
        obtain ⟨rfl, rfl⟩ : id = row.id ∧ attempts = row.attempts + 1 := by
          simpa [Pc.guess] using hother
        obtain ⟨-, r, hr, hid, -, hle, -⟩ := hstands
        rw [h.booked.same hr hrow hid] at hle
        omega
      | _ =>
        rw [hpc] at hother
        cases hother
  constructor
  · exact hmoves.booked h.booked (h.stands e.1)
  · intro j
    by_cases hj : j = e.1
    · subst hj
      rw [Config.put_session_self]
      exact hmoves.stands h.booked (h.stands e.1)
    · rw [Config.put_session_ne _ _ hj]
      refine (h.stands j).evolves hmoves.evolves fun p hp hmem => ?_
      rcases hmoves.comparisons hmem with hmem | hguess
      · exact hmem
      · exact absurd hp (h.apart e.1 j p (Ne.symm hj) hguess)
  · intro j k p hjk hj hk
    by_cases hji : j = e.1
    · rw [hji, Config.put_session_self] at hj
      rw [Config.put_session_ne _ _ (hji ▸ hjk.symm)] at hk
      exact hnew k p (hji ▸ hjk.symm) hj hk
    · rw [Config.put_session_ne _ _ hji] at hj
      by_cases hki : k = e.1
      · rw [hki, Config.put_session_self] at hk
        exact hnew j p hji hk hj
      · rw [Config.put_session_ne _ _ hki] at hk
        exact h.apart j k p hjk hj hk

end DataQ.Otp
