import DataQ.Foundations.Pool
import DataQ.Foundations.Text
import DataQ.Foundations.Transition

/-! # The health alerts of one connection

`_alert_connection_health` queues an edge; `publish_connection_health` claims it with one committed
UPDATE, delivers it, and releases the claim with another commit if nothing was delivered. -/

namespace DataQ.HealthAlerts
set_option autoImplicit false

inductive HealthState
  | failing
  | recovered
  deriving DecidableEq

def HealthState.text : HealthState → Text
  | .failing => "failing".toList
  | .recovered => "recovered".toList

/-- The literal that a message's state is, if it is one. -/
def HealthState.ofText (state : Text) : Option HealthState :=
  if state = HealthState.failing.text then some .failing
  else if state = HealthState.recovered.text then some .recovered
  else none

/-- The connection's `health_alerted_at`, and the edges that reached a channel. -/
structure Row where
  healthAlertedAt : Option ℕ
  delivered : List HealthState
  deriving DecidableEq

/-- Where a task `publish_connection_health` is. -/
inductive Stage
  | queued (state : Text)
  /-- A recovered edge that has read `previous` and not yet claimed. -/
  | looked (previous : Option ℕ)
  /-- The claim is committed, and its delivery has not ended. -/
  | claimed (edge : HealthState) (previous : Option ℕ)
  | done
  deriving DecidableEq

abbrev World := Pool Row Stage

inductive Act
  /-- A state that is neither literal. -/
  | refuse
  | look
  | claim (claimedAt : ℕ)
  | deliver
  /-- The delivery failed: the release is committed. -/
  | release
  /-- A statement raised: its transaction is rolled back, and the task is over. -/
  | raise
  deriving DecidableEq

/-- The state that a release leaves. -/
def HealthState.unclaimed : HealthState → Option ℕ → Option ℕ
  | .failing, _ => none
  | .recovered, previous => previous

/-- One statement of a task, with the commit that follows it. -/
def act : Act → Row → Stage → Option (Row × Stage)
  | .refuse, row, .queued state =>
    if HealthState.ofText state = none then some (row, .done) else none
  | .look, row, .queued state =>
    if HealthState.ofText state = some .recovered then some (row, .looked row.healthAlertedAt)
    else none
  | .claim claimedAt, row, .queued state =>
    if HealthState.ofText state = some .failing then
      if row.healthAlertedAt = none then
        some ({ row with healthAlertedAt := some claimedAt }, .claimed .failing none)
      else some (row, .done)
    else none
  | .claim _, row, .looked previous =>
    if row.healthAlertedAt ≠ none then
      some ({ row with healthAlertedAt := none }, .claimed .recovered previous)
    else some (row, .done)
  | .deliver, row, .claimed edge _ =>
    some ({ row with delivered := row.delivered ++ [edge] }, .done)
  | .release, row, .claimed edge previous =>
    some ({ row with healthAlertedAt := edge.unclaimed previous }, .done)
  | .raise, row, .queued _ => some (row, .done)
  | .raise, row, .looked _ => some (row, .done)
  | .raise, row, .claimed _ _ => some (row, .done)
  | _, _, _ => none

/-- `_alert_connection_health`: the edge that is due. -/
def dueEdge (threshold : ℤ) (streak : ℤ) (recovered : Bool) (healthAlertedAt : Option ℕ) :
    Option HealthState :=
  let outstanding := healthAlertedAt ≠ none
  if threshold ≤ 0 then none
  else if recovered = true then if outstanding then some .recovered else none
  else if threshold ≤ streak ∧ ¬outstanding then some .failing
  else none

inductive Event
  /-- A sweep decides, and hands its edge to the broker, which may fail. -/
  | sweep (streak : ℤ) (recovered : Bool) (sent : Bool)
  /-- Any other message to the task. -/
  | message (state : Text)
  | task (i : ℕ) (a : Act)
  deriving DecidableEq

def step (threshold : ℤ) (w : World) : Event → Option World
  | .sweep streak recovered sent =>
    match dueEdge threshold streak recovered w.store.healthAlertedAt, sent with
    | some edge, true => some (w.add (.queued edge.text))
    | _, _ => some w
  | .message state => some (w.add (.queued state))
  | .task i a => w.perform act i a

/-- Nothing has been alerted. -/
def start : World := ⟨⟨none, []⟩, []⟩

/-! ## What one statement can do -/

/-- Every statement of a task, by what it does to the claims. -/
theorem act_cases {a : Act} {row row' : Row} {stage stage' : Stage}
    (h : act a row stage = some (row', stage')) :
    (row' = row ∧ (∀ edge previous, stage ≠ .claimed edge previous) ∧
      ∀ edge previous, stage' ≠ .claimed edge previous) ∨
    (∃ claimedAt state, a = .claim claimedAt ∧ stage = .queued state ∧
      row.healthAlertedAt = none ∧ row' = { row with healthAlertedAt := some claimedAt } ∧
      stage' = .claimed .failing none) ∨
    (∃ claimedAt previous, a = .claim claimedAt ∧ stage = .looked previous ∧
      row.healthAlertedAt ≠ none ∧ row' = { row with healthAlertedAt := none } ∧
      stage' = .claimed .recovered previous) ∨
    (∃ edge previous, stage = .claimed edge previous ∧ stage' = .done ∧
      ((a = .deliver ∧ row' = { row with delivered := row.delivered ++ [edge] }) ∨
        (a = .release ∧ row' = { row with healthAlertedAt := edge.unclaimed previous }) ∨
        (a = .raise ∧ row' = row))) := by
  cases stage with
  | queued state =>
    cases a with
    | claim claimedAt =>
      simp only [act] at h
      split at h
      · split at h
        · rename_i hnone
          simp only [Option.some.injEq, Prod.mk.injEq] at h
          exact .inr (.inl ⟨claimedAt, state, rfl, rfl, hnone, h.1.symm, h.2.symm⟩)
        · simp only [Option.some.injEq, Prod.mk.injEq] at h
          exact .inl ⟨h.1.symm, by simp, by simp [← h.2]⟩
      · simp at h
    | refuse | look =>
      simp only [act, Option.ite_none_right_eq_some, Option.some.injEq, Prod.mk.injEq] at h
      exact .inl ⟨h.2.1.symm, by simp, by simp [← h.2.2]⟩
    | raise =>
      simp only [act, Option.some.injEq, Prod.mk.injEq] at h
      exact .inl ⟨h.1.symm, by simp, by simp [← h.2]⟩
    | deliver | release => simp [act] at h
  | looked previous =>
    cases a with
    | claim claimedAt =>
      simp only [act] at h
      split at h
      · rename_i hset
        simp only [Option.some.injEq, Prod.mk.injEq] at h
        exact .inr (.inr (.inl ⟨claimedAt, previous, rfl, rfl, hset, h.1.symm, h.2.symm⟩))
      · simp only [Option.some.injEq, Prod.mk.injEq] at h
        exact .inl ⟨h.1.symm, by simp, by simp [← h.2]⟩
    | raise =>
      simp only [act, Option.some.injEq, Prod.mk.injEq] at h
      exact .inl ⟨h.1.symm, by simp, by simp [← h.2]⟩
    | refuse | look | deliver | release => simp [act] at h
  | claimed edge previous =>
    refine .inr (.inr (.inr ⟨edge, previous, rfl, ?_⟩))
    cases a with
    | deliver | release | raise =>
      simp only [act, Option.some.injEq, Prod.mk.injEq] at h
      simp [← h.1, ← h.2]
    | refuse | look | claim claimedAt => simp [act] at h
  | done => cases a <;> simp [act] at h

end DataQ.HealthAlerts
