import DataQ.Alerts.SignalEdges

/-! # Runs of the workspace signals' ticks

The edges of a key in every interleaving of ticks. -/

namespace DataQ.SignalEdges
open DataQ.HealthAlerts (HealthState Alternates due)
open DataQ.Interleaving DataQ.Transition
set_option autoImplicit false

/-! ## Ticks go over all that they watch -/

def Tick.signals (tick : Tick) : List Signal := tick.counted.map Prod.fst

/-- What a tick has counted, has before it and is at are the signals that it watches. -/
def Local.Covers : Local → Prop
  | .idle => True
  | .clearing tick _ | .ticking tick => tick.signals ++ tick.todo = tick.watched
  | .holding tick signal | .sending tick signal _ | .delivered tick signal _ =>
    tick.signals ++ signal :: tick.todo = tick.watched

theorem covers_count {tick : Tick} {signal : Signal} {outcome : Outcome}
    (h : tick.signals ++ signal :: tick.todo = tick.watched) :
    (Local.ticking (tick.count signal outcome)).Covers := by
  show (tick.counted ++ [(signal, outcome)]).map Prod.fst ++ tick.todo = tick.watched
  rw [List.map_append, List.append_assoc]
  exact h

variable {sha256 : Text → Text} {s s' : Store} {l l' : Local}

theorem covers_judge {tick : Tick} {signal : Signal} {report : Option Report}
    (hcovers : (Local.holding tick signal).Covers)
    (h : judge sha256 s tick signal report = (s', l')) :
    l'.Covers ∧ s'.finished = s.finished := by
  unfold judge at h
  split at h
  · cases h
    exact ⟨covers_count hcovers, rfl⟩
  · split at h
    · cases h
      exact ⟨covers_count hcovers, rfl⟩
    · cases h
      exact ⟨hcovers, rfl⟩

/-- A tick that has finished has counted all that it watches. -/
def Finished (s : Store) : Prop := ∀ tick ∈ s.finished, tick.signals = tick.watched

theorem act_covers {a : Act} (hcovers : l.Covers) (hfinished : Finished s)
    (h : act sha256 a s l = some (s', l')) : l'.Covers ∧ Finished s' := by
  unfold act at h
  split at h
  · split at h
    · cases h
      exact ⟨trivial, hfinished⟩
    · cases h
      exact ⟨rfl, hfinished⟩
  · cases h
    exact ⟨rfl, hfinished⟩
  · cases h
    exact ⟨hcovers, hfinished⟩
  · split at h
    · split at h
      · cases h
      · cases h
        exact ⟨covers_count hcovers, hfinished⟩
    · cases h
      exact ⟨hcovers, hfinished⟩
  · obtain ⟨hnext, hsame⟩ := covers_judge hcovers (Option.some.inj h)
    exact ⟨hnext, by rwa [Finished, hsame]⟩
  · obtain ⟨hnext, hsame⟩ := covers_judge hcovers (Option.some.inj h)
    exact ⟨hnext, by rwa [Finished, hsame]⟩
  · split at h
    · cases h
      exact ⟨hcovers, hfinished⟩
    · cases h
      exact ⟨covers_count hcovers, hfinished⟩
    · cases h
      exact ⟨trivial, hfinished⟩
  · cases h
    exact ⟨covers_count hcovers, hfinished⟩
  · split at h
    · next htodo =>
      cases h
      refine ⟨trivial, fun tick htick => ?_⟩
      obtain rfl | hbefore := List.mem_cons.mp htick
      · rw [Local.Covers, htodo, List.append_nil] at hcovers
        exact hcovers
      · exact hfinished tick hbefore
    · cases h
  · cases h
  · cases h
    exact ⟨trivial, hfinished⟩
  · cases h

/-! ## Every run -/

section Sessions
variable {ι : Type*} [DecidableEq ι]

abbrev World (ι : Type*) := Config ι Store Local

variable (sha256) in
/-- Every row is locked by one session at most, and what every session goes on is so. -/
structure Sound (c : World ι) : Prop where
  settled : Settled c.store
  finished : Finished c.store
  exclusive : Exclusive (fun s key => s.locked key = true)
    (fun l key => l.holds sha256 key = true) c
  current : ∀ i, Current sha256 c.store (c.session i)
  covers : ∀ i, (c.session i).Covers

def start : World ι := ⟨initial, fun _ => .idle⟩

omit [DecidableEq ι] in
theorem sound_start : Sound sha256 (start : World ι) where
  settled := ⟨fun _ _ => ⟨nofun, nofun⟩, fun _ => trivial⟩
  finished _ htick := by cases htick
  exclusive := ⟨fun _ _ _ h => absurd h Bool.false_ne_true, fun _ _ h => absurd h Bool.false_ne_true⟩
  current _ := trivial
  covers _ := trivial

theorem current_of_same (hsame : ∀ key, l.holds sha256 key = true →
      s'.rows key = s.rows key ∧ s'.history key = s.history key)
    (h : Current sha256 s l) : Current sha256 s' l := by
  have hkey (signal : Signal) (hholds : l.holds sha256 = signal.only sha256) :=
    hsame (signal.key sha256) (hholds ▸ only_key sha256 signal)
  cases l with
  | idle | ticking => trivial
  | clearing tick stale =>
    intro key hstale
    obtain ⟨hrows, hhistory⟩ := hsame key hstale
    obtain ⟨hagrees, hclosable, houtstanding⟩ := h key hstale
    exact ⟨(agrees_of_same hrows hhistory).mpr hagrees, hclosable,
      (outstanding_of_rows hrows).trans houtstanding⟩
  | holding tick signal =>
    obtain ⟨hrows, hhistory⟩ := hkey signal rfl
    exact (agrees_of_same hrows hhistory).mpr h
  | sending tick signal report =>
    obtain ⟨hrows, hhistory⟩ := hkey signal rfl
    refine ⟨(agrees_of_same hrows hhistory).mpr h.1, ?_⟩
    rw [outstanding_of_rows hrows]
    exact h.2
  | delivered tick signal report =>
    have h : report.isFailing = true ↔ _ := h
    rw [Current, (hkey signal rfl).2]
    exact h

/-- A step leaves what the other sessions have locked. -/
structure Spares (sha256 : Text → Text) (c d : World ι) (i : ι) : Prop where
  session : d.session i = c.session i
  rows : ∀ key, (c.session i).holds sha256 key = true →
    d.store.rows key = c.store.rows key ∧ d.store.history key = c.store.history key

theorem sound_step {c d : World ι} {e : ι × Act} (hsound : Sound sha256 c)
    (h : step (act sha256) c e = some d) :
    Sound sha256 d ∧ ∀ j, j ≠ e.1 → Spares sha256 c d j := by
  obtain ⟨i, a⟩ := e
  obtain ⟨⟨s', l'⟩, hact, rfl⟩ := step_eq_some.mp h
  have hmoves := act_moves hsound.settled (hsound.exclusive.locked i) (hsound.current i) hact
  obtain ⟨hcovers, hfinished⟩ := act_covers (hsound.covers i) hsound.finished hact
  have hspares (j : ι) (hj : j ≠ i) : Spares sha256 c (c.put i (s', l')) j := by
    refine ⟨Config.put_session_ne _ _ hj, fun key hkey => ?_⟩
    obtain ⟨hlocked, hnot⟩ := hsound.exclusive.others hj hkey
    exact (hmoves.others key hlocked hnot).2
  refine ⟨⟨hmoves.settled, hfinished, hsound.exclusive.put hmoves.takes fun key hlocked hnot =>
    (hmoves.others key hlocked hnot).1, fun j => ?_, fun j => ?_⟩, hspares⟩
  · by_cases hj : j = i
    · subst hj
      rw [Config.put_session_self]
      exact hmoves.current
    · rw [(hspares j hj).session]
      exact current_of_same (hspares j hj).rows (hsound.current j)
  · by_cases hj : j = i
    · subst hj
      rw [Config.put_session_self]
      exact hcovers
    · rw [(hspares j hj).session]
      exact hsound.covers j

theorem sound_run {c d : World ι} {es : List (ι × Act)} (hsound : Sound sha256 c)
    (hrun : run (step (act sha256)) c es = some d) : Sound sha256 d :=
  run_keeps (fun _ _ _ hs h => (sound_step hs h).1) hsound hrun

/-- While the others act, a session stands where it stood, and so do the rows it has locked. -/
theorem spares_run {c d : World ι} {es : List (ι × Act)} {i : ι} (hsound : Sound sha256 c)
    (hothers : ∀ e ∈ es, e.1 ≠ i) (hrun : run (step (act sha256)) c es = some d) :
    Spares sha256 c d i := by
  induction es generalizing c with
  | nil =>
    obtain rfl : c = d := by simpa using hrun
    exact ⟨rfl, fun _ _ => ⟨rfl, rfl⟩⟩
  | cons e es ih =>
    obtain ⟨t, hstep, hrest⟩ := run_cons_eq_some.mp hrun
    obtain ⟨hsound', hspares⟩ := sound_step hsound hstep
    have hfirst := hspares i (hothers e List.mem_cons_self).symm
    have hlast := ih hsound' (fun e' he' => hothers e' (List.mem_cons_of_mem e he')) hrest
    refine ⟨hlast.session.trans hfirst.session, fun key hkey => ?_⟩
    obtain ⟨hrows, hhistory⟩ := hfirst.rows key hkey
    obtain ⟨hrows', hhistory'⟩ := hlast.rows key (hfirst.session ▸ hkey)
    exact ⟨hrows'.trans hrows, hhistory'.trans hhistory⟩

/-- What an evaluation of the signal finds. -/
def Act.finds (tick : Tick) : Signal → Act → Option Report
  | .pollStaleness, .evaluatePollStaleness count reference moment =>
    some (SignalEdges.evaluatePollStaleness tick.settings count reference moment)
  | .pipeline p, .evaluatePipeline ingesting overdue zScore =>
    SignalEdges.evaluatePipeline tick.settings p ingesting overdue zScore
  | _, _ => none

theorem act_of_finds {tick : Tick} {signal : Signal} {a : Act} {report : Report}
    (h : a.finds tick signal = some report) :
    act sha256 a s (.holding tick signal) = some (judge sha256 s tick signal (some report)) := by
  unfold Act.finds at h
  split at h
  · cases h
    rfl
  · rw [act, h]
  · cases h

/-- A report of the edge that was not delivered is attempted again. -/
theorem judge_of_undelivered {tick : Tick} {signal : Signal} {report : Report}
    {rest : List Event} (hsettled : Settled s) (hagrees : Agrees s (signal.key sha256))
    (hlast : s.history (signal.key sha256) = .edge report.state false :: rest) :
    judge sha256 s tick signal (some report) = (s, .sending tick signal report) := by
  have hturn := hsettled.inTurn (signal.key sha256)
  rw [hlast] at hturn
  have houtstanding : s.outstanding (signal.key sha256) = true ↔ _ := hagrees
  rw [hlast, sinceClosing] at houtstanding
  have hstate : report.isFailing = true ↔ report.state = .failing := decide_eq_true_iff
  have hdue : report.isFailing ≠ s.outstanding (signal.key sha256) := by
    intro heq
    rw [← heq, hstate, hturn.1] at houtstanding
    exact iff_not_self houtstanding.symm
  simp only [judge, if_neg hdue]

/-- The edges of a key that were delivered, the first one first. -/
def deliveredEdges : List Event → List HealthState
  | [] => []
  | .closed :: history => deliveredEdges history
  | .edge state true :: history => deliveredEdges history ++ [state]
  | .edge _ false :: history => deliveredEdges history

theorem publish_eq {c d : World ι} {i : ι} {tick : Tick} {signal : Signal} {report : Report}
    {results : List ChannelResult} (hsession : c.session i = .sending tick signal report)
    (h : step (act sha256) c (i, .publishWorkspaceSignal results) = some d) :
    d.store.history (signal.key sha256) =
        .edge report.state (decide (.sent ∈ results)) :: c.store.history (signal.key sha256) ∧
      d.store.rows = c.store.rows ∧
      (.sent ∉ results → d.store.locked (signal.key sha256) = false) := by
  obtain ⟨⟨s', l'⟩, hact, rfl⟩ := step_eq_some.mp h
  simp only [hsession, act] at hact
  have hdelivered := @fanOutDeliveredFirst_eq_delivered results
  split at hact
  · next heq =>
    have hsent := hdelivered.mp heq
    cases hact
    refine ⟨?_, rfl, fun hnot => absurd hsent hnot⟩
    rw [decide_eq_true hsent]
    exact history_record (only_key sha256 signal)
  · next heq =>
    have hsent : .sent ∉ results := fun hmem => by cases heq.symm.trans (hdelivered.mpr hmem)
    cases hact
    refine ⟨?_, rfl, fun _ => locked_release (only_key sha256 signal)⟩
    rw [decide_eq_false hsent]
    exact history_record (only_key sha256 signal)
  · next heq =>
    have hsent : .sent ∉ results := fun hmem => by cases heq.symm.trans (hdelivered.mpr hmem)
    cases hact
    refine ⟨?_, rfl, fun _ => locked_release (only_key sha256 signal)⟩
    rw [decide_eq_false hsent]
    exact history_record (only_key sha256 signal)

theorem deliveredEdges_of_not_closed {history : List Event} (h : .closed ∉ history) :
    deliveredEdges history = sinceClosing history := by
  induction history with
  | nil => rfl
  | cons event history ih =>
    have hrest : deliveredEdges history = sinceClosing history :=
      ih fun hmem => h (List.mem_cons_of_mem _ hmem)
    cases event with
    | closed => exact absurd List.mem_cons_self h
    | edge state delivered =>
      cases delivered with
      | true => rw [deliveredEdges, sinceClosing, hrest]
      | false => exact hrest

/-- A row that the start of a tick finds unwatched is closed with the tick's first commit. -/
theorem closes_unwatched {c d : World ι} {i : ι} {settings : Settings} {bound : List Pipeline}
    {key : Text} {es : List (ι × Act)} (hsound : Sound sha256 c) (hidle : c.session i = .idle)
    (hstale : c.store.unwatched ((if settings.pipelineBaselineZThreshold ≤ 0 then [] else bound).map
      (signalKey sha256)) key = true)
    (hothers : ∀ e ∈ es, e.1 ≠ i)
    (hrun : run (step (act sha256)) c ((i, .runPipelineBaselineCheck settings bound) ::
      (es ++ [(i, .clearUnwatched)])) = some d) :
    d.store.outstanding key = false ∧ d.store.history key = .closed :: c.store.history key := by
  obtain ⟨c₁, hstart, hrest⟩ := run_cons_eq_some.mp hrun
  obtain ⟨c₂, hmiddle, hlast⟩ := run_append_eq_some.mp hrest
  obtain ⟨c₃, hclear, hend⟩ := run_cons_eq_some.mp hlast
  obtain rfl : c₃ = d := by simpa using hend
  have hsound₁ := (sound_step hsound hstart).1
  obtain ⟨⟨s₁, l₁⟩, hact, rfl⟩ := step_eq_some.mp hstart
  simp only [hidle, act, Option.some.injEq, Prod.mk.injEq] at hact
  obtain ⟨rfl, rfl⟩ := hact
  obtain ⟨hsession, hrows⟩ := spares_run hsound₁ hothers hmiddle
  rw [Config.put_session_self] at hsession hrows
  have hhistory := (hrows key hstale).2
  obtain ⟨⟨s₂, l₂⟩, hact, rfl⟩ := step_eq_some.mp hclear
  simp only [hsession, act, Option.some.injEq, Prod.mk.injEq] at hact
  obtain ⟨rfl, rfl⟩ := hact
  refine ⟨?_, ?_⟩
  · show (c₂.store.write _ Flag.unwatched).outstanding key = false
    rw [Store.outstanding, flag_write hstale]
    rfl
  · rw [Config.put_store]
    refine (history_record hstale).trans ?_
    show _ :: c₂.store.history key = _
    rw [hhistory]
    rfl

/-- However the ticks interleave and whatever the channels do: between two closings of its row the
delivered edges of a key alternate, and a row that nobody has locked stands for the last of them;
an edge that was not delivered leaves the rows as they were and is attempted again by each tick
that takes the row and finds the condition still so; a tick that finishes has gone over each of its
signals; and the row of a pipeline that is watched no more is closed without an edge. -/
theorem edges_alternate_between_closings (es : List (ι × Act)) (c : World ι)
    (hrun : run (step (act sha256)) start es = some c) :
    (∀ key earlier, earlier <:+ c.store.history key → Alternates (sinceClosing earlier)) ∧
    (∀ key, c.store.locked key = false → (c.store.outstanding key = true ↔
      (sinceClosing (c.store.history key)).getLast? = some .failing)) ∧
    (∀ i tick signal report results d, c.session i = .sending tick signal report →
      step (act sha256) c (i, .publishWorkspaceSignal results) = some d →
      d.store.history (signal.key sha256) =
        .edge report.state (decide (.sent ∈ results)) :: c.store.history (signal.key sha256) ∧
      d.store.rows = c.store.rows ∧
      (.sent ∉ results → d.store.locked (signal.key sha256) = false)) ∧
    (∀ i settings watched signal todo counted,
      c.session i = .ticking ⟨settings, watched, signal :: todo, counted⟩ →
      c.store.locked (signal.key sha256) = false → ∃ d,
        step (act sha256) c (i, .claim) = some d ∧
        d.session i = .holding ⟨settings, watched, todo, counted⟩ signal) ∧
    (∀ i tick signal (a : Act) report rest, c.session i = .holding tick signal →
      a.finds tick signal = some report →
      c.store.history (signal.key sha256) = .edge report.state false :: rest →
      step (act sha256) c (i, a) = some (c.put i (c.store, .sending tick signal report))) ∧
    (∀ tick ∈ c.store.finished, tick.counted.map Prod.fst = tick.watched) ∧
    (∀ i settings bound key fs d, c.session i = .idle →
      c.store.unwatched ((if settings.pipelineBaselineZThreshold ≤ 0 then [] else bound).map
        (signalKey sha256)) key = true →
      (∀ e ∈ fs, e.1 ≠ i) →
      run (step (act sha256)) c ((i, .runPipelineBaselineCheck settings bound) ::
        (fs ++ [(i, .clearUnwatched)])) = some d →
      d.store.outstanding key = false ∧ d.store.history key = .closed :: c.store.history key) ∧
    Alternates (deliveredEdges (c.store.history pollStalenessKey)) := by
  have hsound : Sound sha256 c := sound_run sound_start hrun
  refine ⟨fun key earlier hearlier => ?_, hsound.settled.free, fun i tick signal report results d =>
    publish_eq, ?_, ?_, hsound.finished, fun i settings bound key fs d hidle hstale =>
    closes_unwatched hsound hidle hstale, ?_⟩
  · exact alternates_of_inTurn (inTurn_of_suffix hearlier (hsound.settled.inTurn key))
  · intro i settings watched signal todo counted hsession hopen
    refine ⟨c.put i (c.store.lock (signal.only sha256),
      .holding ⟨settings, watched, todo, counted⟩ signal), step_eq_some.mpr ⟨_, ?_, rfl⟩,
      Config.put_session_self _ _ _⟩
    simp [act, hsession, hopen]
  · intro i tick signal a report rest hsession hfinds hlast
    refine step_eq_some.mpr ⟨_, ?_, rfl⟩
    have hagrees : Agrees c.store (signal.key sha256) := by
      have hcurrent := hsound.current i
      rw [hsession] at hcurrent
      exact hcurrent
    rw [hsession, act_of_finds hfinds, judge_of_undelivered hsound.settled hagrees hlast]
  · have hturn := hsound.settled.inTurn pollStalenessKey
    rw [deliveredEdges_of_not_closed fun hclosed => by cases closable_of_closed hturn hclosed]
    exact alternates_of_inTurn hturn

end Sessions

/-! ## A pipeline that is watched, unwatched and watched again -/

def nightly : Pipeline := ⟨"adf".toList, "nightly".toList, "prod".toList⟩

/-- A tick that finds the pipeline overdue and alerts, one after its binding is gone, and one that
alerts anew. -/
def rewatched : List (ℕ × Act) :=
  let settings : Settings := ⟨3600, 3⟩
  let alerts : List Act := [.runPipelineBaselineCheck settings [nightly], .clearUnwatched, .claim,
    .evaluatePipeline true true none, .publishWorkspaceSignal [.skipped, .sent, .raised], .commit 1,
    .finish]
  let unwatched : List Act := [.runPipelineBaselineCheck settings [], .clearUnwatched, .finish]
  (alerts ++ unwatched ++ alerts).map fun a => (0, a)

theorem edges_alternate_between_closings_rewatched : ∃ c : World ℕ,
    run (step (act id)) start rewatched = some c ∧
    c.store.outstanding (signalKey id nightly) = true ∧
    sinceClosing (c.store.history (signalKey id nightly)) = [.failing] ∧
    Alternates (sinceClosing (c.store.history (signalKey id nightly))) := by
  obtain ⟨c, hrun, houtstanding, hsince⟩ : ∃ c : World ℕ,
      run (step (act id)) start rewatched = some c ∧
      c.store.outstanding (signalKey id nightly) = true ∧
      sinceClosing (c.store.history (signalKey id nightly)) = [.failing] := ⟨_, rfl, rfl, rfl⟩
  exact ⟨c, hrun, houtstanding, hsince,
    (edges_alternate_between_closings rewatched c hrun).1 _ _ (List.suffix_refl _)⟩

/-- A key closed without a message is alerted twice in a row. -/
theorem edges_of_rewatched_do_not_alternate : ¬∀ (es : List (ℕ × Act)) (c : World ℕ),
    run (step (act id)) start es = some c →
    ∀ key, Alternates (deliveredEdges (c.store.history key)) := by
  intro h
  obtain ⟨c, hrun, hedges⟩ : ∃ c : World ℕ, run (step (act id)) start rewatched = some c ∧
      deliveredEdges (c.store.history (signalKey id nightly)) = [.failing, .failing] :=
    ⟨_, rfl, rfl⟩
  have halternates := h rewatched c hrun (signalKey id nightly)
  rw [hedges] at halternates
  cases halternates 1 .failing rfl

end DataQ.SignalEdges
