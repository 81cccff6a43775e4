import DataQ.Alerts.Alternation
import DataQ.Alerts.SignalTicks

/-! # The edges of a workspace signal

Between two closings of its row the delivered edges of a key alternate, whatever ticks overlap and
whatever the channels do. -/

namespace DataQ.SignalEdges
open DataQ.HealthAlerts (HealthState Alternates due)
open DataQ.Interleaving DataQ.Transition
set_option autoImplicit false

/-- The edges delivered since the last closing, the first one first. -/
def sinceClosing : List Event → List HealthState
  | [] => []
  | .closed :: _ => []
  | .edge state true :: history => sinceClosing history ++ [state]
  | .edge _ false :: history => sinceClosing history

/-- Each attempt is at the edge that is due, and a row is closed where an alert is outstanding and
the row is one that is closed. -/
def InTurn (closable : Bool) : List Event → Prop
  | [] => True
  | .edge state _ :: history =>
    (state = .failing ↔ (sinceClosing history).getLast? ≠ some .failing) ∧ InTurn closable history
  | .closed :: history =>
    closable = true ∧ (sinceClosing history).getLast? = some .failing ∧ InTurn closable history

def closable (key : Text) : Bool := signalKeyPrefix.isPrefixOf key

/-- An alert is outstanding where the last delivered edge is failing. -/
def Agrees (s : Store) (key : Text) : Prop :=
  s.outstanding key = true ↔ (sinceClosing (s.history key)).getLast? = some .failing

theorem alternates_of_inTurn {closable : Bool} {history : List Event}
    (h : InTurn closable history) : Alternates (sinceClosing history) := by
  induction history with
  | nil =>
    intro i edge hi
    cases hi
  | cons event history ih =>
    cases event with
    | closed =>
      intro i edge hi
      cases hi
    | edge state delivered =>
      obtain ⟨hdue, hbefore⟩ := h
      cases delivered with
      | false => exact ih hbefore
      | true =>
        have halternates := ih hbefore
        refine HealthAlerts.alternates_concat.mpr ⟨halternates, ?_⟩
        rw [ne_eq, HealthAlerts.getLast?_of_alternates halternates] at hdue
        cases state with
        | failing => exact HealthAlerts.due_failing_iff.mpr (by have := hdue.mp rfl; omega)
        | recovered =>
          refine HealthAlerts.due_recovered_iff.mpr ?_
          by_contra heven
          cases hdue.mpr heven

theorem inTurn_of_suffix {closable : Bool} {earlier history : List Event}
    (hsuffix : earlier <:+ history) (h : InTurn closable history) : InTurn closable earlier := by
  induction history with
  | nil => rwa [List.suffix_nil.mp hsuffix]
  | cons event history ih =>
    obtain rfl | hbefore := List.suffix_cons_iff.mp hsuffix
    · exact h
    · cases event with
      | edge state delivered => exact ih hbefore h.2
      | closed => exact ih hbefore h.2.2

theorem closable_of_closed {closable : Bool} {history : List Event} (h : InTurn closable history)
    (hclosed : .closed ∈ history) : closable = true := by
  induction history with
  | nil => cases hclosed
  | cons event history ih =>
    cases event with
    | edge state delivered => exact ih h.2 ((List.mem_cons.mp hclosed).resolve_left nofun)
    | closed => exact h.1

/-! ## Channels -/

theorem fanOutFrom_eq_delivered {delivered : ℕ} {lastError : Bool} {results : List ChannelResult} :
    fanOutFrom delivered lastError results = .delivered ↔ 0 < delivered ∨ .sent ∈ results := by
  induction results generalizing delivered lastError with
  | nil =>
    cases delivered with
    | zero => cases lastError <;> simp [fanOutFrom]
    | succ n => simp [fanOutFrom]
  | cons result results ih =>
    cases result with
    | sent => simp [fanOutFrom, ih]
    | skipped => simp [fanOutFrom, ih]
    | raised => simp [fanOutFrom, ih]

theorem fanOutDeliveredFirst_eq_delivered {results : List ChannelResult} :
    fanOutDeliveredFirst results = .delivered ↔ .sent ∈ results := by
  rw [fanOutDeliveredFirst, fanOutFrom_eq_delivered]
  simp

/-! ## The rows -/

section Rows
variable {s : Store} {keys : Text → Bool} {key : Text}

theorem outstanding_of_rows {s' : Store} (h : s'.rows key = s.rows key) :
    s'.outstanding key = s.outstanding key := by
  rw [Store.outstanding, Store.outstanding, Store.flag, Store.flag, h]

theorem agrees_of_same {s' : Store} (hrows : s'.rows key = s.rows key)
    (hhistory : s'.history key = s.history key) : Agrees s' key ↔ Agrees s key := by
  rw [Agrees, Agrees, outstanding_of_rows hrows, hhistory]

theorem flag_write {columns : Flag → Flag} (h : keys key = true) :
    (s.write keys columns).flag key = columns (s.flag key) := by
  simp [Store.flag, Store.write, h]

theorem history_record {event : Event} (h : keys key = true) :
    (s.record keys event).history key = event :: s.history key := if_pos h

theorem locked_release (h : keys key = true) : (s.release keys).locked key = false := by
  simp [Store.release, h]

theorem unwatched_eq_true {watched : List Text} (h : s.unwatched watched key = true) :
    signalKeyPrefix.isPrefixOf key = true ∧ s.outstanding key = true ∧ key ∉ watched ∧
      s.locked key = false := by
  simpa [Store.unwatched, and_assoc] using h

end Rows

/-! ## What an act does -/

variable (sha256 : Text → Text)

/-- What a session knows of the rows that it has locked. -/
def Current (s : Store) : Local → Prop
  | .idle | .ticking _ => True
  | .clearing _ stale => ∀ key, stale key = true →
      Agrees s key ∧ closable key = true ∧ s.outstanding key = true
  | .holding _ signal => Agrees s (signal.key sha256)
  | .sending _ signal report =>
    Agrees s (signal.key sha256) ∧ report.isFailing ≠ s.outstanding (signal.key sha256)
  | .delivered _ signal report => report.isFailing = true ↔
    (sinceClosing (s.history (signal.key sha256))).getLast? = some .failing

/-- Of the rows that nobody has locked, and of all histories. -/
structure Settled (s : Store) : Prop where
  free : ∀ key, s.locked key = false → Agrees s key
  inTurn : ∀ key, InTurn (closable key) (s.history key)

/-- What an act of a session leaves, to itself and to the others. -/
structure Moves (s : Store) (l : Local) (s' : Store) (l' : Local) : Prop where
  settled : Settled s'
  current : Current sha256 s' l'
  takes : ∀ key, l'.holds sha256 key = true →
    s'.locked key = true ∧ (l.holds sha256 key = true ∨ ¬s.locked key = true)
  others : ∀ key, s.locked key = true → ¬l.holds sha256 key = true →
    s'.locked key = true ∧ s'.rows key = s.rows key ∧ s'.history key = s.history key

variable {sha256} {s s' : Store} {l l' : Local}

variable (sha256) in
theorem only_key (signal : Signal) : signal.only sha256 (signal.key sha256) = true :=
  decide_eq_true rfl

theorem eq_key_of_only {signal : Signal} {key : Text} (h : signal.only sha256 key = true) :
    key = signal.key sha256 := of_decide_eq_true h

theorem current_of_holds_none (h : l.holds sha256 = fun _ => false) : Current sha256 s l := by
  have hnot (signal : Signal) : signal.only sha256 ≠ fun _ => false := fun honly =>
    Bool.false_ne_true ((congrFun honly _).symm.trans (only_key sha256 signal))
  cases l with
  | idle | ticking => trivial
  | clearing tick stale =>
    intro key hkey
    rw [show stale = fun _ => false from h] at hkey
    cases hkey
  | holding tick signal => exact absurd h (hnot signal)
  | sending tick signal report => exact absurd h (hnot signal)
  | delivered tick signal report => exact absurd h (hnot signal)

/-- But for the one whose edge was just delivered, the rows that a session has locked agree. -/
theorem agrees_of_current {key : Text}
    (hnot : ∀ tick signal report, l ≠ .delivered tick signal report)
    (hcurrent : Current sha256 s l) (hkey : l.holds sha256 key = true) : Agrees s key := by
  cases l with
  | idle | ticking => cases hkey
  | clearing tick stale => exact (hcurrent key hkey).1
  | holding tick signal => exact eq_key_of_only hkey ▸ hcurrent
  | sending tick signal report => exact eq_key_of_only hkey ▸ hcurrent.1
  | delivered tick signal report => exact absurd rfl (hnot tick signal report)

/-- The session changes its own rows only. -/
theorem moves_confined (hsettled : Settled s)
    (hconfined : ∀ key, ¬l.holds sha256 key = true → s'.locked key = s.locked key ∧
      s'.rows key = s.rows key ∧ s'.history key = s.history key)
    (hown : ∀ key, l.holds sha256 key = true →
      (s'.locked key = false → Agrees s' key) ∧ InTurn (closable key) (s'.history key))
    (hcurrent : Current sha256 s' l')
    (hkeeps : ∀ key, l'.holds sha256 key = true →
      s'.locked key = true ∧ l.holds sha256 key = true) : Moves sha256 s l s' l' where
  settled := by
    refine ⟨fun key hfree => ?_, fun key => ?_⟩
    · by_cases hkey : l.holds sha256 key = true
      · exact (hown key hkey).1 hfree
      · obtain ⟨hlocked, hrows, hhistory⟩ := hconfined key hkey
        exact (agrees_of_same hrows hhistory).mpr (hsettled.free key (hlocked ▸ hfree))
    · by_cases hkey : l.holds sha256 key = true
      · exact (hown key hkey).2
      · rw [(hconfined key hkey).2.2]
        exact hsettled.inTurn key
  current := hcurrent
  takes key hkey := ⟨(hkeeps key hkey).1, .inl (hkeeps key hkey).2⟩
  others key hlocked hkey := by
    obtain ⟨hsame, hrest⟩ := hconfined key hkey
    exact ⟨hsame.trans hlocked, hrest⟩

/-- The session locks rows that nobody has locked. -/
theorem moves_lock {keys : Text → Bool} (hsettled : Settled s)
    (hopen : ∀ key, keys key = true → s.locked key = false)
    (hholds : l'.holds sha256 = keys) (hcurrent : Current sha256 (s.lock keys) l') :
    Moves sha256 s l (s.lock keys) l' where
  settled := by
    refine ⟨fun key hfree => ?_, hsettled.inTurn⟩
    have hbefore : s.locked key = false := by
      rw [Store.lock, Bool.or_eq_false_iff] at hfree
      exact hfree.1
    exact hsettled.free key hbefore
  current := hcurrent
  takes key hkey := by
    rw [hholds] at hkey
    refine ⟨by simp [Store.lock, hkey], .inr ?_⟩
    rw [hopen key hkey]
    exact Bool.false_ne_true
  others key hlocked _ := ⟨by simp [Store.lock, hlocked], rfl, rfl⟩

/-- The rows are as they were, and the session holds nothing. -/
theorem moves_none (hsettled : Settled s) (hlocked : s'.locked = s.locked)
    (hrows : s'.rows = s.rows) (hhistory : s'.history = s.history)
    (hl : l.holds sha256 = fun _ => false) (hl' : l'.holds sha256 = fun _ => false) :
    Moves sha256 s l s' l' := by
  refine moves_confined hsettled (fun key _ => ⟨by rw [hlocked], by rw [hrows], by rw [hhistory]⟩)
    (fun key hkey => ?_) (current_of_holds_none hl') fun key hkey => ?_
  · rw [hl] at hkey
    cases hkey
  · rw [hl'] at hkey
    cases hkey

/-- The session releases the rows that it has locked, after it has written them. -/
theorem moves_release {t : Store} (hsettled : Settled s)
    (hconfined : ∀ key, ¬l.holds sha256 key = true → t.locked key = s.locked key ∧
      t.rows key = s.rows key ∧ t.history key = s.history key)
    (hown : ∀ key, l.holds sha256 key = true → Agrees t key ∧ InTurn (closable key) (t.history key))
    (hl' : l'.holds sha256 = fun _ => false) :
    Moves sha256 s l (t.release (l.holds sha256)) l' := by
  refine moves_confined hsettled (fun key hkey => ?_) (fun key hkey => ?_)
    (current_of_holds_none hl') fun key hkey => ?_
  · obtain ⟨hlocked, hrest⟩ := hconfined key hkey
    refine ⟨?_, hrest⟩
    simp [Store.release, hlocked, hkey]
  · exact ⟨fun _ => (hown key hkey).1, (hown key hkey).2⟩
  · rw [hl'] at hkey
    cases hkey

theorem moves_judge {tick : Tick} {signal : Signal} {report : Option Report}
    (hsettled : Settled s) (hlocked : s.locked (signal.key sha256) = true)
    (hagrees : Agrees s (signal.key sha256))
    (h : judge sha256 s tick signal report = (s', l')) :
    Moves sha256 s (.holding tick signal) s' l' := by
  have hown (key : Text) (hkey : signal.only sha256 key = true) :
      Agrees s key ∧ InTurn (closable key) (s.history key) := by
    rw [eq_key_of_only hkey]
    exact ⟨hagrees, hsettled.inTurn _⟩
  have hrelease (tick' : Tick) : Moves sha256 s (.holding tick signal)
      (s.release (signal.only sha256)) (.ticking tick') :=
    moves_release hsettled (fun _ _ => ⟨rfl, rfl, rfl⟩) hown rfl
  unfold judge at h
  split at h
  · cases h
    exact hrelease _
  · next report =>
    split at h
    · cases h
      exact hrelease _
    · next hdue =>
      cases h
      refine moves_confined hsettled (fun _ _ => ⟨rfl, rfl, rfl⟩)
        (fun key hkey => ⟨fun _ => (hown key hkey).1, (hown key hkey).2⟩) ⟨hagrees, hdue⟩
        fun key hkey => ?_
      rw [eq_key_of_only hkey]
      exact ⟨hlocked, only_key sha256 signal⟩

theorem due_of_ne {key : Text} {report : Report} (hagrees : Agrees s key)
    (hdue : report.isFailing ≠ s.outstanding key) :
    report.state = .failing ↔ (sinceClosing (s.history key)).getLast? ≠ some .failing := by
  have hlast : s.outstanding key = true ↔ _ := hagrees
  have hstate : report.isFailing = true ↔ report.state = .failing := decide_eq_true_iff
  rw [ne_eq, ← hlast, ← hstate]
  cases hfailing : report.isFailing <;> simp_all

/-- An edge that was not delivered releases the row as it was. -/
theorem moves_undelivered {tick : Tick} {signal : Signal} {report : Report}
    (hsettled : Settled s) (hagrees : Agrees s (signal.key sha256))
    (hdue : report.isFailing ≠ s.outstanding (signal.key sha256))
    (hl' : l'.holds sha256 = fun _ => false) :
    Moves sha256 s (.sending tick signal report)
      ((s.record (signal.only sha256) (.edge report.state false)).release (signal.only sha256))
      l' := by
  refine moves_release (l := .sending tick signal report) hsettled
    (fun key hkey => ⟨rfl, rfl, if_neg hkey⟩) (fun key hkey => ?_) hl'
  obtain rfl := eq_key_of_only hkey
  have hhistory : (s.record (signal.only sha256) (.edge report.state false)).history
      (signal.key sha256) = .edge report.state false :: s.history (signal.key sha256) :=
    history_record (only_key sha256 signal)
  rw [Agrees, hhistory]
  exact ⟨hagrees, due_of_ne hagrees hdue, hsettled.inTurn _⟩

theorem moves_delivered {tick : Tick} {signal : Signal} {report : Report}
    (hsettled : Settled s) (hlocked : s.locked (signal.key sha256) = true)
    (hagrees : Agrees s (signal.key sha256))
    (hdue : report.isFailing ≠ s.outstanding (signal.key sha256)) :
    Moves sha256 s (.sending tick signal report)
      (s.record (signal.only sha256) (.edge report.state true))
      (.delivered tick signal report) := by
  have hhistory : (s.record (signal.only sha256) (.edge report.state true)).history
      (signal.key sha256) = .edge report.state true :: s.history (signal.key sha256) :=
    history_record (only_key sha256 signal)
  refine moves_confined hsettled (fun key hkey => ⟨rfl, rfl, if_neg hkey⟩) (fun key hkey => ?_) ?_
    fun key hkey => ?_
  · obtain rfl := eq_key_of_only hkey
    refine ⟨fun hfree => ?_, ?_⟩
    · rw [show s.locked (signal.key sha256) = false from hfree] at hlocked
      cases hlocked
    · rw [hhistory]
      exact ⟨due_of_ne hagrees hdue, hsettled.inTurn _⟩
  · show report.isFailing = true ↔ _
    rw [hhistory, sinceClosing, List.getLast?_concat, Option.some.injEq, Report.isFailing,
      decide_eq_true_iff]
  · rw [eq_key_of_only hkey]
    exact ⟨hlocked, only_key sha256 signal⟩

theorem moves_committed {tick tick' : Tick} {signal : Signal} {report : Report} {moment : ℤ}
    (hsettled : Settled s)
    (hcurrent : report.isFailing = true ↔
      (sinceClosing (s.history (signal.key sha256))).getLast? = some .failing) :
    Moves sha256 s (.delivered tick signal report)
      ((s.write (signal.only sha256) fun flag => flag.reported report moment).release
        (signal.only sha256)) (.ticking tick') := by
  refine moves_release (l := .delivered tick signal report) hsettled
    (fun key hkey => ⟨rfl, if_neg hkey, rfl⟩) (fun key hkey => ?_) rfl
  obtain rfl := eq_key_of_only hkey
  refine ⟨?_, hsettled.inTurn _⟩
  rw [Agrees, Store.outstanding, flag_write (only_key sha256 signal)]
  refine Iff.trans ?_ hcurrent
  cases hfailing : report.isFailing <;> simp [Flag.reported, hfailing]

theorem moves_cleared {tick : Tick} {stale : Text → Bool} (hsettled : Settled s)
    (hcurrent : Current sha256 s (.clearing tick stale)) :
    Moves sha256 s (.clearing tick stale)
      (((s.write stale Flag.unwatched).record stale .closed).release stale) (.ticking tick) := by
  refine moves_release (l := .clearing tick stale) hsettled
    (fun key hkey => ⟨rfl, if_neg hkey, if_neg hkey⟩) (fun key hkey => ?_) rfl
  have hkey : stale key = true := hkey
  obtain ⟨hagrees, hclosable, houtstanding⟩ := hcurrent key hkey
  rw [Agrees, history_record hkey]
  refine ⟨?_, hclosable, hagrees.mp houtstanding, hsettled.inTurn key⟩
  show (s.write stale Flag.unwatched).outstanding key = true ↔ _
  rw [Store.outstanding, flag_write hkey]
  exact ⟨nofun, nofun⟩

theorem act_moves {a : Act} (hsettled : Settled s)
    (hlocked : ∀ key, l.holds sha256 key = true → s.locked key = true)
    (hcurrent : Current sha256 s l) (h : act sha256 a s l = some (s', l')) :
    Moves sha256 s l s' l' := by
  unfold act at h
  split at h
  · -- `run_poll_staleness_check`
    split at h
    · cases h
      exact moves_none hsettled rfl rfl rfl rfl rfl
    · cases h
      exact moves_none hsettled rfl rfl rfl rfl rfl
  · -- `run_pipeline_baseline_check`, up to the rows that it closes
    cases h
    refine moves_lock hsettled (fun key hkey => (unwatched_eq_true hkey).2.2.2) rfl ?_
    intro key hkey
    obtain ⟨hpipeline, houtstanding, -, hopen⟩ := unwatched_eq_true hkey
    exact ⟨hsettled.free key hopen, hpipeline, houtstanding⟩
  · -- `_clear_unwatched`
    cases h
    exact moves_cleared hsettled hcurrent
  · -- claim
    next signal todo counted =>
    split at h
    · split at h
      · cases h
      · cases h
        exact moves_none hsettled rfl rfl rfl rfl rfl
    · next hopen =>
      cases h
      refine moves_lock hsettled (fun key hkey => ?_) rfl ?_
      · rw [eq_key_of_only hkey]
        simpa using hopen
      · exact hsettled.free _ (by simpa using hopen)
  · -- the poll staleness
    exact moves_judge hsettled (hlocked _ (only_key sha256 _)) hcurrent (Option.some.inj h)
  · -- a pipeline
    exact moves_judge hsettled (hlocked _ (only_key sha256 _)) hcurrent (Option.some.inj h)
  · -- publish
    split at h
    · cases h
      exact moves_delivered hsettled (hlocked _ (only_key sha256 _)) hcurrent.1 hcurrent.2
    · cases h
      exact moves_undelivered hsettled hcurrent.1 hcurrent.2 rfl
    · cases h
      exact moves_undelivered hsettled hcurrent.1 hcurrent.2 rfl
  · -- commit
    cases h
    exact moves_committed hsettled hcurrent
  · -- finish
    split at h
    · cases h
      exact moves_none hsettled rfl rfl rfl rfl rfl
    · cases h
  · cases h
  · -- raise
    next hnot =>
    cases h
    refine moves_release hsettled (fun _ _ => ⟨rfl, rfl, rfl⟩) (fun key hkey => ?_) rfl
    exact ⟨agrees_of_current hnot hcurrent hkey, hsettled.inTurn key⟩
  · cases h

end DataQ.SignalEdges
