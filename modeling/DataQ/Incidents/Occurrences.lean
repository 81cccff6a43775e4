import DataQ.Incidents.Lifecycle

/-! # What holds of the incidents at every moment

The invariant of the committed rows, what a synchronisation under way may rely on, and what the
steps of the other sessions leave of it. -/

namespace DataQ.Incidents
open DataQ.Locking
set_option autoImplicit false

/-- The failing results of the pair since the incident was opened; the one it was opened for comes
before that. -/
def since (pair : Pair) (id : ℕ) : List Fact → ℕ
  | [] => 0
  | .failing p :: facts => since pair id facts + if p = pair then 1 else 0
  | .opened j _ :: facts => if j = id then 0 else since pair id facts

/-- In a history, newest first, the one incident was opened before the other. -/
def OpenedBefore (history : List Fact) (first second : ℕ) : Prop :=
  ∃ later earlier p q, history = later ++ .opened second p :: earlier ∧ .opened first q ∈ earlier

section Counting
variable {pair : Pair} {id : ℕ} {facts more history : List Fact}

@[simp] theorem since_failing_self :
    since pair id (.failing pair :: facts) = since pair id facts + 1 := by
  show since pair id facts + (if pair = pair then 1 else 0) = _
  rw [if_pos rfl]

theorem since_failing_ne {p : Pair} (h : p ≠ pair) :
    since pair id (.failing p :: facts) = since pair id facts := by
  show since pair id facts + (if p = pair then 1 else 0) = _
  rw [if_neg h, add_zero]

@[simp] theorem since_opened_self {p : Pair} : since pair id (.opened id p :: facts) = 0 :=
  if_pos rfl

theorem since_opened_ne {j : ℕ} {p : Pair} (h : j ≠ id) :
    since pair id (.opened j p :: facts) = since pair id facts :=
  if_neg h

/-- Facts about other pairs and other incidents do not count. -/
theorem since_insert (facts history : List Fact) (hfailing : .failing pair ∉ more)
    (hopened : ∀ p, .opened id p ∉ more) :
    since pair id (facts ++ (more ++ history)) = since pair id (facts ++ history) := by
  induction facts with
  | nil =>
    induction more with
    | nil => rfl
    | cons fact more ih =>
      have hrec := ih (fun h => hfailing (List.mem_cons_of_mem _ h))
        (fun p h => hopened p (List.mem_cons_of_mem _ h))
      cases fact with
      | failing p =>
        have hne : p ≠ pair := fun heq => hfailing (heq ▸ List.mem_cons_self)
        simpa [since_failing_ne hne] using hrec
      | opened j p =>
        have hne : j ≠ id := fun heq => hopened p (heq ▸ List.mem_cons_self)
        simpa [since_opened_ne hne] using hrec
  | cons fact facts ih =>
    cases fact with
    | failing p => simp only [List.cons_append, since, ih]
    | opened j p => simp only [List.cons_append, since, ih]

theorem OpenedBefore.append {first second : ℕ} (h : OpenedBefore history first second)
    (more : List Fact) : OpenedBefore (more ++ history) first second := by
  obtain ⟨later, earlier, p, q, heq, hmem⟩ := h
  exact ⟨more ++ later, earlier, p, q, by rw [heq, List.append_assoc], hmem⟩

theorem OpenedBefore.of_facts {first second : ℕ} {p q : Pair} (hsecond : .opened second p ∈ facts)
    (hfirst : .opened first q ∈ history) : OpenedBefore (facts ++ history) first second := by
  obtain ⟨later, earlier, heq⟩ := List.append_of_mem hsecond
  refine ⟨later, earlier ++ history, p, q, ?_, List.mem_append_right _ hfirst⟩
  rw [heq, List.append_assoc, List.cons_append]

end Counting

variable {ι : Type*}

/-- The incident that is linked as the prior one of the pair. -/
def Resolved (s : Store ι) (pair : Pair) (id : ℕ) : Prop :=
  ∃ r ∈ s.incidents, r.id = id ∧ r.pair = pair ∧ r.active = false

/-- The committed incidents. -/
structure Store.Sound (s : Store ι) : Prop where
  ids : (s.incidents.map Incident.id).Nodup
  below : ∀ r ∈ s.incidents, r.id < s.nextId
  locksBelow : ∀ id k, s.locks id = some k → id < s.nextId
  one : ∀ a ∈ s.incidents, ∀ b ∈ s.incidents, a.active = true → b.active = true →
    a.pair = b.pair → a = b
  count : ∀ a ∈ s.incidents, a.active = true →
    a.occurrenceCount = since a.pair a.id s.history + 1
  opened : ∀ a ∈ s.incidents, .opened a.id a.pair ∈ s.history
  prior : ∀ a ∈ s.incidents, ∀ p, a.priorIncidentId = some p →
    Resolved s a.pair p ∧ OpenedBefore s.history p a.id
  inserting : ∀ p k, s.inserting p = some k → ∀ r ∈ s.incidents, r.pair = p → r.active = false

/-- The session has the committed active row, which is the object's. -/
def HasRow (s : Store ι) (o : Incident) : Prop :=
  ∃ r ∈ s.incidents, r.id = o.id ∧ r.pair = o.pair ∧ r.priorIncidentId = o.priorIncidentId ∧
    r.active = true

/-- The session has inserted the row, and nobody sees it. -/
def HasInserted (s : Store ι) (i : ι) (y : Sync) (o : Incident) : Prop :=
  o.id ∉ s.incidents.map Incident.id ∧ s.inserting o.pair = some i ∧
    .opened o.id o.pair ∈ y.facts ∧ ∀ p, o.priorIncidentId = some p → Resolved s o.pair p

/-- An object of the session. -/
structure Sync.Owns (y : Sync) (s : Store ι) (i : ι) (o : Incident) : Prop where
  locked : s.locks o.id = some i
  count : o.occurrenceCount = since o.pair o.id (y.facts ++ s.history) + 1
  kind : HasRow s o ∨ HasInserted s i y o

/-- A synchronisation under way. -/
structure Sync.Sound (y : Sync) (s : Store ι) (i : ι) : Prop where
  own : ∀ o ∈ y.own, y.Owns s i o
  pairs : (y.own.map Incident.pair).Nodup
  ids : (y.own.map Incident.id).Nodup
  failing : ∀ p, .failing p ∈ y.facts → ∃ o ∈ y.own, o.pair = p
  opened : ∀ id p, .opened id p ∈ y.facts →
    s.locks id = some i ∧ id ∉ s.incidents.map Incident.id ∧ s.inserting p = some i

def Pc.Sound (s : Store ι) (i : ι) : Pc → Prop
  | .idle => True
  | .next y => y.Sound s i
  | .readPrior y _ _ => y.Sound s i
  | .insertOpen y checkId _ priorId =>
    y.Sound s i ∧ ∀ p, priorId = some p → Resolved s (y.pair checkId) p
  | .selectActive y _ _ => y.Sound s i
  | .lockActive y checkId _ id => y.Sound s i ∧ (∀ o ∈ y.own, o.pair ≠ y.pair checkId) ∧
    ∃ r ∈ s.incidents, r.id = id ∧ r.pair = y.pair checkId

/-- The pairs that a session alone may record facts of. -/
def Claims (s : Store ι) (i : ι) (p : Pair) : Prop :=
  s.inserting p = some i ∨ ∃ r ∈ s.incidents, r.pair = p ∧ r.active = true ∧ s.locks r.id = some i

/-- What a step of another session leaves to session `i`. -/
structure Advances (s t : Store ι) (i : ι) : Prop where
  locks : ∀ id, s.locks id = some i → t.locks id = some i
  inserting : ∀ p, s.inserting p = some i → t.inserting p = some i
  rows : ∀ r ∈ s.incidents, ∃ r' ∈ t.incidents, r'.id = r.id ∧ r'.pair = r.pair ∧
    r'.priorIncidentId = r.priorIncidentId ∧ (r.active = false → r'.active = false) ∧
    (s.locks r.id = some i → r'.active = r.active)
  back : ∀ r' ∈ t.incidents, (∃ r ∈ s.incidents, r.id = r'.id) ∨ s.locks r'.id ≠ some i
  history : ∃ g, t.history = g ++ s.history ∧ (∀ p, .failing p ∈ g → ¬ Claims s i p) ∧
    ∀ id p, .opened id p ∈ g → s.locks id ≠ some i

section Relying
variable {s t : Store ι} {i : ι} {y : Sync}

theorem Resolved.advance {pair : Pair} {id : ℕ} (h : Resolved s pair id) (hst : Advances s t i) :
    Resolved t pair id := by
  obtain ⟨r, hr, hid, hpair, hinactive⟩ := h
  obtain ⟨r', hr', hid', hpair', _, hstays, _⟩ := hst.rows r hr
  exact ⟨r', hr', hid'.trans hid, hpair'.trans hpair, hstays hinactive⟩

theorem Sync.Owns.claims {o : Incident} (h : y.Owns s i o) : Claims s i o.pair := by
  obtain ⟨r, hr, hid, hpair, _, hactive⟩ | ⟨_, hinserting, _⟩ := h.kind
  · exact .inr ⟨r, hr, hpair, hactive, hid ▸ h.locked⟩
  · exact .inl hinserting

theorem not_mem_ids_advance {id : ℕ} (hlocked : s.locks id = some i)
    (h : id ∉ s.incidents.map Incident.id) (hst : Advances s t i) :
    id ∉ t.incidents.map Incident.id := by
  intro hmem
  obtain ⟨r', hr', hid⟩ := List.mem_map.mp hmem
  obtain ⟨r, hr, hold⟩ | hfree := hst.back r' hr'
  · exact h (List.mem_map.mpr ⟨r, hr, hold.trans hid⟩)
  · exact hfree (hid ▸ hlocked)

theorem Sync.Owns.advance {o : Incident} (h : y.Owns s i o) (hst : Advances s t i) :
    y.Owns t i o := by
  obtain ⟨g, hhistory, hfailing, hopened⟩ := hst.history
  refine ⟨hst.locks _ h.locked, ?_, ?_⟩
  · rw [hhistory, since_insert _ _ (fun hmem => hfailing _ hmem h.claims)
      (fun p hmem => hopened _ p hmem h.locked)]
    exact h.count
  · obtain ⟨r, hr, hid, hpair, hprior, hactive⟩ | ⟨hnew, hinserting, hfact, hprior⟩ := h.kind
    · obtain ⟨r', hr', hid', hpair', hprior', _, hsame⟩ := hst.rows r hr
      refine .inl ⟨r', hr', hid'.trans hid, hpair'.trans hpair, hprior'.trans hprior, ?_⟩
      rw [hsame (hid ▸ h.locked), hactive]
    · exact .inr ⟨not_mem_ids_advance h.locked hnew hst, hst.inserting _ hinserting, hfact,
        fun p hp => (hprior p hp).advance hst⟩

theorem Sync.Sound.advance (h : y.Sound s i) (hst : Advances s t i) : y.Sound t i := by
  refine ⟨fun o ho => (h.own o ho).advance hst, h.pairs, h.ids, h.failing, fun id p hmem => ?_⟩
  obtain ⟨hlocked, hnew, hinserting⟩ := h.opened id p hmem
  exact ⟨hst.locks id hlocked, not_mem_ids_advance hlocked hnew hst, hst.inserting p hinserting⟩

theorem Pc.Sound.advance {pc : Pc} (h : pc.Sound s i) (hst : Advances s t i) : pc.Sound t i := by
  cases pc with
  | idle => trivial
  | next y => exact Sync.Sound.advance h hst
  | readPrior y checkId attempt => exact Sync.Sound.advance h hst
  | selectActive y checkId purpose => exact Sync.Sound.advance h hst
  | insertOpen y checkId attempt priorId =>
    exact ⟨h.1.advance hst, fun p hp => (h.2 p hp).advance hst⟩
  | lockActive y checkId purpose id =>
    obtain ⟨hsound, hnone, r, hr, hid, hpair⟩ := h
    obtain ⟨r', hr', hid', hpair', _⟩ := hst.rows r hr
    exact ⟨hsound.advance hst, hnone, r', hr', hid'.trans hid, hpair'.trans hpair⟩

/-- A step that leaves the rows and the history alone. -/
theorem Advances.of_locks (hincidents : t.incidents = s.incidents) (hhistory : t.history = s.history)
    (hlocks : ∀ id, s.locks id = some i → t.locks id = some i)
    (hinserting : ∀ p, s.inserting p = some i → t.inserting p = some i) : Advances s t i := by
  refine ⟨hlocks, hinserting, fun r hr => ?_, fun r' hr' => ?_, [], by simpa using hhistory,
    by simp, by simp⟩
  · exact ⟨r, hincidents ▸ hr, rfl, rfl, rfl, fun h => h, fun _ => rfl⟩
  · exact .inl ⟨r', hincidents ▸ hr', rfl⟩

end Relying

end DataQ.Incidents
