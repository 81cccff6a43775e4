import DataQ.Incidents.Soundness

/-! # Every failing result is counted once

The history that the occurrence counts are read off has one entry for each failing result of each
synchronisation that committed, and the lifecycle's four laws hold of every run. -/

namespace DataQ.Incidents
open DataQ.Locking DataQ.Interleaving
open DataQ.Runs (ResultStatus)
set_option autoImplicit false

variable {ι : Type*}

def Fact.failingPair : Fact → Option Pair
  | .failing p => some p
  | .opened _ _ => none

/-- The failing results that a synchronisation has recorded are those that it has gone through:
what it still has to do makes up the rest. -/
def Sync.Accounts (y : Sync) (rest : List Pair) : Prop :=
  (y.facts.filterMap Fact.failingPair).reverse ++ rest = y.failingPairs y.results

def Sync.remaining (y : Sync) (checkId : ℕ) : Purpose → List Pair
  | .attach _ => y.pair checkId :: y.failingPairs y.todo
  | .autoResolve => y.failingPairs y.todo

def Pc.Accounted : Pc → Prop
  | .idle => True
  | .next y => y.Accounts (y.failingPairs y.todo)
  | .readPrior y checkId attempt => y.Accounts (y.remaining checkId (.attach attempt))
  | .insertOpen y checkId attempt _ => y.Accounts (y.remaining checkId (.attach attempt))
  | .selectActive y checkId purpose => y.Accounts (y.remaining checkId purpose)
  | .lockActive y checkId purpose _ => y.Accounts (y.remaining checkId purpose)

def Store.Accounted (s : Store ι) : Prop := s.history.filterMap Fact.failingPair = s.synced

section Accounting
variable {s t : Store ι} {i : ι} {pc next : Pc} {y : Sync}

theorem Sync.Accounts.write {checkId : ℕ} {purpose : Purpose} {inc : Incident}
    (h : y.Accounts (y.remaining checkId purpose)) (hpair : inc.pair = y.pair checkId) (now : ℕ) :
    (y.write purpose inc now).Accounts (y.failingPairs y.todo) := by
  cases purpose with
  | attach attempt =>
    show ((Fact.failing inc.pair :: y.facts).filterMap Fact.failingPair).reverse ++ _ = _
    rw [List.filterMap_cons_some (show (Fact.failing inc.pair).failingPair = some inc.pair from rfl),
      List.reverse_cons, List.append_assoc, List.singleton_append, hpair]
    exact h
  | autoResolve => exact h

theorem Sync.Accounts.inserted {checkId id : ℕ} {attempt : ℕ} {priorId : Option ℕ}
    (h : y.Accounts (y.remaining checkId (.attach attempt))) :
    (y.inserted (y.newIncident checkId id priorId)).Accounts (y.failingPairs y.todo) := by
  show ((Fact.opened id (y.pair checkId) :: Fact.failing (y.pair checkId) :: y.facts).filterMap
    Fact.failingPair).reverse ++ _ = _
  rw [List.filterMap_cons_none
      (show (Fact.opened id (y.pair checkId)).failingPair = none from rfl),
    List.filterMap_cons_some
      (show (Fact.failing (y.pair checkId)).failingPair = some (y.pair checkId) from rfl),
    List.reverse_cons, List.append_assoc, List.singleton_append]
  exact h

variable [DecidableEq ι]

theorem missed_accounted {checkId : ℕ} {purpose : Purpose} (hs : s.Accounted)
    (h : y.Accounts (y.remaining checkId purpose))
    (hmissed : missed i s y checkId purpose = (t, next)) : t.Accounted ∧ next.Accounted := by
  cases purpose with
  | attach attempt =>
    simp only [missed] at hmissed
    split at hmissed
    · obtain ⟨rfl, rfl⟩ := Prod.mk.inj hmissed
      exact ⟨hs, h⟩
    · obtain ⟨rfl, rfl⟩ := Prod.mk.inj hmissed
      exact ⟨hs, trivial⟩
  | autoResolve =>
    obtain ⟨rfl, rfl⟩ := Prod.mk.inj hmissed
    exact ⟨hs, h⟩

theorem nextResult_accounted (hs : s.Accounted) (h : y.Accounts (y.failingPairs y.todo))
    (hnext : nextResult i s y = (t, next)) : t.Accounted ∧ next.Accounted := by
  unfold nextResult at hnext
  split at hnext
  · next htodo =>
    obtain ⟨rfl, rfl⟩ := Prod.mk.inj hnext
    refine ⟨?_, trivial⟩
    have hall : (y.facts.filterMap Fact.failingPair).reverse = y.failingPairs y.results := by
      simpa [Sync.Accounts, htodo, Sync.failingPairs] using h
    show (y.facts ++ s.history).filterMap Fact.failingPair =
      (y.failingPairs y.results).reverse ++ s.synced
    rw [List.filterMap_append, hs, ← hall, List.reverse_reverse]
  · next checkId status todo htodo =>
    have hsplit : y.failingPairs y.todo =
        (if status.failingTier.isSome then [y.pair checkId] else []) ++ y.failingPairs todo := by
      rw [htodo, Sync.failingPairs, List.filter_cons]
      split <;> simp [Sync.failingPairs]
    rw [hsplit] at h
    simp only at hnext
    split at hnext
    · next hfailing =>
      obtain ⟨rfl, rfl⟩ := Prod.mk.inj hnext
      rw [if_pos hfailing] at h
      exact ⟨hs, h⟩
    · next hpassing =>
      rw [if_neg hpassing] at h
      split at hnext
      · obtain ⟨rfl, rfl⟩ := Prod.mk.inj hnext
        exact ⟨hs, h⟩
      · obtain ⟨rfl, rfl⟩ := Prod.mk.inj hnext
        exact ⟨hs, h⟩

theorem selectActive_accounted {checkId : ℕ} {purpose : Purpose} (hs : s.Accounted)
    (h : y.Accounts (y.remaining checkId purpose))
    (hselect : selectActive i s y checkId purpose = (t, next)) : t.Accounted ∧ next.Accounted := by
  unfold selectActive at hselect
  split at hselect
  · next o hfind =>
    obtain ⟨rfl, rfl⟩ := Prod.mk.inj hselect
    have hpair : o.pair = y.pair checkId := by simpa using List.find?_some hfind
    refine ⟨hs, ?_⟩
    have hwrite := h.write hpair s.now
    cases purpose <;> exact hwrite
  · split at hselect
    · obtain ⟨rfl, rfl⟩ := Prod.mk.inj hselect
      exact ⟨hs, h⟩
    · exact missed_accounted hs h hselect

theorem lockActive_accounted {checkId id : ℕ} {purpose : Purpose} (hsound : s.Sound)
    (hpc : Pc.Sound s i (.lockActive y checkId purpose id)) (hs : s.Accounted)
    (h : y.Accounts (y.remaining checkId purpose))
    (hlock : lockActive i s y checkId purpose id = some (t, next)) :
    t.Accounted ∧ next.Accounted := by
  obtain ⟨_, _, r, hr, hid, hpair⟩ := hpc
  unfold lockActive at hlock
  split at hlock
  · split at hlock
    · next row hfind =>
      obtain ⟨rfl, rfl⟩ := Prod.mk.inj (Option.some.inj hlock)
      have hrow : row.id = id ∧ row.active = true := by simpa using List.find?_some hfind
      have heq : row = r :=
        hsound.eq_of_id (List.mem_of_find?_eq_some hfind) hr (hrow.1.trans hid.symm)
      refine ⟨hs, ?_⟩
      have hwrite := h.write (heq ▸ hpair) s.now
      cases purpose <;> exact hwrite
    · exact missed_accounted hs h (Option.some.inj hlock)
  · cases hlock

theorem insertOpen_accounted {checkId attempt : ℕ} {priorId : Option ℕ} (hs : s.Accounted)
    (h : y.Accounts (y.remaining checkId (.attach attempt)))
    (hinsert : insertOpen i s y checkId attempt priorId = some (t, next)) :
    t.Accounted ∧ next.Accounted := by
  unfold insertOpen at hinsert
  simp only at hinsert
  split at hinsert
  · obtain ⟨rfl, rfl⟩ := Prod.mk.inj (Option.some.inj hinsert)
    exact ⟨hs, h⟩
  · split at hinsert
    · obtain ⟨rfl, rfl⟩ := Prod.mk.inj (Option.some.inj hinsert)
      exact ⟨hs, h.inserted⟩
    · cases hinsert

theorem act_accounted {a : Act} (hsound : s.Sound) (hpc : pc.Sound s i) (hs : s.Accounted)
    (h : pc.Accounted) (hact : act i a s pc = some (t, next)) : t.Accounted ∧ next.Accounted := by
  have htransition : ∀ id change, transition i s id change = some (t, next) →
      t.Accounted ∧ next.Accounted := by
    intro id change htransition
    unfold transition at htransition
    split at htransition
    · obtain ⟨rfl, rfl⟩ := Prod.mk.inj (Option.some.inj htransition)
      exact ⟨hs, trivial⟩
    · cases htransition
  unfold act at hact
  split at hact
  · obtain ⟨rfl, rfl⟩ := Prod.mk.inj (Option.some.inj hact)
    exact ⟨hs, rfl⟩
  · exact htransition _ _ hact
  · exact htransition _ _ hact
  · cases pc with
    | idle => cases hact
    | next y => exact nextResult_accounted hs h (Option.some.inj hact)
    | readPrior y checkId attempt =>
      obtain ⟨rfl, rfl⟩ := Prod.mk.inj (Option.some.inj hact)
      exact ⟨hs, h⟩
    | insertOpen y checkId attempt priorId => exact insertOpen_accounted hs h hact
    | selectActive y checkId purpose => exact selectActive_accounted hs h (Option.some.inj hact)
    | lockActive y checkId purpose id => exact lockActive_accounted hsound hpc hs h hact
  · obtain ⟨rfl, rfl⟩ := Prod.mk.inj (Option.some.inj hact)
    exact ⟨hs, trivial⟩
  · obtain ⟨rfl, rfl⟩ := Prod.mk.inj (Option.some.inj hact)
    exact ⟨hs, h⟩
  · cases hact

end Accounting

section Runs
variable [DecidableEq ι]

structure World.Accounted (c : World ι) : Prop where
  sound : c.Sound
  store : c.store.Accounted
  session : ∀ i, (c.session i).Accounted

theorem accounted_of_run {events : List (ι × Act)} {c : World ι}
    (hrun : Transition.run step World.initial events = some c) : c.Accounted := by
  refine Transition.run_keeps (fun c e d hc h => ?_) ⟨initial_sound, rfl, fun _ => trivial⟩ hrun
  have hsound := (step_sound hc.sound h).1
  obtain ⟨⟨t, next⟩, hact, hput⟩ := step_eq_some.mp h
  subst hput
  obtain ⟨hstore, hnext⟩ :=
    act_accounted hc.sound.store (hc.sound.session e.1) hc.store (hc.session e.1) hact
  refine ⟨hsound, hstore, fun k => ?_⟩
  by_cases hk : k = e.1
  · rw [hk, Config.put_session_self]
    exact hnext
  · rw [Config.put_session_ne _ _ hk]
    exact hc.session k

/-- Whatever is synchronised, acknowledged and resolved in whatever order: a pair has one active
incident at most; an active incident counts the failing results that were synchronised since it was
opened, the one it was opened for included; a prior incident is a resolved one of the same pair and
was opened before; and what is resolved stays so. -/
theorem incident_lifecycle_sound {events : List (ι × Act)} {c : World ι}
    (hrun : Transition.run step World.initial events = some c) :
    (∀ a ∈ c.store.incidents, ∀ b ∈ c.store.incidents, a.active = true → b.active = true →
      a.pair = b.pair → a = b) ∧
    (c.store.history.filterMap Fact.failingPair = c.store.synced ∧
      ∀ a ∈ c.store.incidents, a.active = true → .opened a.id a.pair ∈ c.store.history ∧
        a.occurrenceCount = since a.pair a.id c.store.history + 1) ∧
    (∀ a ∈ c.store.incidents, ∀ p, a.priorIncidentId = some p →
      (∃ r ∈ c.store.incidents, r.id = p ∧ r.pair = a.pair ∧ r.active = false) ∧
        OpenedBefore c.store.history p a.id) ∧
    ∀ (later : List (ι × Act)) (d : World ι), Transition.run step c later = some d →
      ∀ r ∈ c.store.incidents, r.active = false →
        ∀ r' ∈ d.store.incidents, r'.id = r.id → r'.active = false := by
  have haccounted := accounted_of_run hrun
  have hsound := haccounted.sound.store
  refine ⟨hsound.one, ⟨haccounted.store, fun a ha hactive => ?_⟩, hsound.prior, ?_⟩
  · exact ⟨hsound.opened a ha, hsound.count a ha hactive⟩
  · intro later d hlater r hr hinactive r' hr' hid
    obtain ⟨r'', hr'', hid', hinactive'⟩ := stays_resolved haccounted.sound hlater r hr hinactive
    have heq : r' = r'' :=
      (sound_of_run haccounted.sound hlater).store.eq_of_id hr' hr'' (hid.trans hid'.symm)
    rw [heq]
    exact hinactive'

end Runs

/-- Two failing results meet, the second waits for the first one's insert and attaches; the incident
is resolved by hand, and a third failing result opens the next. -/
def reopened : List (Bool × Act) :=
  [(true, .sync 1 1 true [(7, .fail)]), (false, .sync 1 1 true [(7, .warn)]), (true, .proceed),
    (false, .proceed), (true, .proceed), (false, .proceed), (true, .proceed), (true, .proceed),
    (false, .proceed), (false, .proceed), (false, .proceed), (false, .proceed),
    (true, .resolve 0 9 (some .fixed)), (true, .sync 1 1 true [(7, .critical)]), (true, .proceed),
    (true, .proceed), (true, .proceed), (true, .proceed)]

theorem incident_lifecycle_sound_reopened :
    ∃ c : World Bool, Transition.run step World.initial reopened = some c ∧
      (∃ a ∈ c.store.incidents, a.priorIncidentId = some 0) ∧
      ∀ a ∈ c.store.incidents, ∀ p, a.priorIncidentId = some p →
        OpenedBefore c.store.history p a.id := by
  have hends : ((Transition.run step (World.initial : World Bool) reopened).any fun c =>
      c.store.incidents.map (fun a => (a.id, a.occurrenceCount, a.active, a.priorIncidentId)) =
        [(0, 2, false, none), (1, 1, true, some 0)]) = true := by
    decide
  obtain ⟨c, hrun, hincidents⟩ := (Option.any_eq_true _ _).mp hends
  obtain ⟨_, _, hprior, _⟩ := incident_lifecycle_sound hrun
  refine ⟨c, hrun, ?_, fun a ha p hp => (hprior a ha p hp).2⟩
  have hmem : ((1, 1, true, some 0) : ℕ × ℕ × Bool × Option ℕ) ∈ c.store.incidents.map
      (fun a => (a.id, a.occurrenceCount, a.active, a.priorIncidentId)) := by
    rw [of_decide_eq_true hincidents]
    simp
  obtain ⟨a, ha, heq⟩ := List.mem_map.mp hmem
  exact ⟨a, ha, (Prod.mk.inj (Prod.mk.inj (Prod.mk.inj heq).2).2).2⟩

end DataQ.Incidents
