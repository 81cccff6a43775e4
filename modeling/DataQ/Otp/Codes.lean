import DataQ.Foundations.Transition
import DataQ.Foundations.Locks
import Mathlib.Data.List.Nodup

/-! # One-time sign-in codes

`otp_service.request_code` and `verify_code`, as the statements their transactions issue under READ
COMMITTED. The `UPDATE` that supersedes an address's codes works on the rows of its own snapshot: it
waits for the lock of each in turn and leaves alone one that was consumed meanwhile. What it and the
`INSERT` after it have done is seen by others when the request commits. The two `UPDATE`s of a
verification are committed at once. -/

namespace DataQ.Otp
open DataQ.Locking DataQ.Interleaving
set_option autoImplicit false

/-- `CODE_TTL_MINUTES`, in seconds. -/
def codeTtl : ℕ := 600

/-- `MAX_ATTEMPTS`. -/
def maxAttempts : ℕ := 5

/-- An `otp_codes` row. `createdAt` is when the request's transaction began. -/
structure OtpCode where
  id : ℕ
  email : String
  codeHash : String
  expiresAt : ℕ
  consumedAt : Option ℕ
  attempts : ℕ
  createdAt : ℕ
  deriving DecidableEq, Repr

/-- The row matches `consumed_at IS NULL`. -/
def OtpCode.unconsumed (r : OtpCode) : Bool := r.consumedAt.isNone

def OtpCode.live (r : OtpCode) (now : ℕ) : Bool := r.unconsumed && decide (now < r.expiresAt)

/-- What has come of the codes, for the record. `presentedAt` is the verification's `now`. -/
inductive Fact
  | issued (id : ℕ) (email : String)
  | compared (id attempt : ℕ)
  | redeemed (id : ℕ) (email : String) (presentedAt : ℕ)
  deriving DecidableEq, Repr

/-- `history` is newest first. -/
structure Store (ι : Type*) where
  codes : List OtpCode
  now : ℕ
  nextId : ℕ
  locks : Locks ℕ ι
  history : List Fact

/-- Where a request or a verification stands. A superseding request has the codes below `seen` in
the snapshot of its `UPDATE`, still waits for those of `todo` and has updated those of `locked`. -/
inductive Pc
  | idle
  | requesting (email : String) (startedAt : ℕ)
  | superseding (email : String) (startedAt now seen : ℕ) (todo locked : List ℕ)
  | selecting (email code : String) (now : ℕ)
  | charging (id : ℕ) (code : String) (now : ℕ)
  | comparing (id : ℕ) (code : String) (now attempts : ℕ) (codeHash : String) (expiresAt : ℕ)
  | consuming (id now : ℕ)
  deriving DecidableEq, Repr

/-- `request` is one that is eligible and within its quota; `issue` carries the code generated,
`select` which of the newest unconsumed rows is returned. -/
inductive Act
  | request (email : String)
  | supersede
  | lock
  | issue (code : String)
  | verify (email code : String)
  | select (id : ℕ)
  | charge
  | compare
  | consume
  | fail
  | tick
  deriving DecidableEq, Repr

/-- The unconsumed codes of an address, those the `WHERE` of both functions selects. -/
def outstanding (codes : List OtpCode) (email : String) : List OtpCode :=
  codes.filter fun r => r.email = email ∧ r.unconsumed

/-- An `UPDATE … WHERE id = … AND consumed_at IS NULL`. -/
def updateCode (codes : List OtpCode) (id : ℕ) (change : OtpCode → OtpCode) : List OtpCode :=
  codes.map fun r => if r.id = id ∧ r.unconsumed then change r else r

def OtpCode.consume (r : OtpCode) (now : ℕ) : OtpCode := { r with consumedAt := some now }

def OtpCode.charge (r : OtpCode) : OtpCode := { r with attempts := r.attempts + 1 }

variable {ι : Type*} [DecidableEq ι]

/-- The next row of the superseding `UPDATE`, once its lock is free. -/
def lockNext (i : ι) (s : Store ι) (email : String) (startedAt now seen : ℕ) :
    List ℕ → List ℕ → Option (Store ι × Pc)
  | [], _ => none
  | id :: todo, locked =>
    if s.locks.Free i id then
      if s.codes.any fun r => r.id = id ∧ r.unconsumed then
        some ({ s with locks := s.locks.take i id },
          .superseding email startedAt now seen todo (id :: locked))
      else some (s, .superseding email startedAt now seen todo locked)
    else none

/-- The `INSERT` of `request_code` and the commit of its transaction. -/
def Store.issue (hashCode : String → String) (s : Store ι) (i : ι) (email code : String)
    (startedAt now : ℕ) (locked : List ℕ) : Store ι :=
  { s with
    codes := (s.codes.map fun r => if r.id ∈ locked then r.consume now else r) ++
      [⟨s.nextId, email, hashCode code, now + codeTtl, none, 0, startedAt⟩]
    nextId := s.nextId + 1
    locks := s.locks.release i
    history := .issued s.nextId email :: s.history }

/-- The `SELECT … ORDER BY created_at DESC LIMIT 1`. -/
def select (s : Store ι) (email code : String) (now id : ℕ) : Option (Store ι × Pc) :=
  let rows := outstanding s.codes email
  if rows = [] then some (s, .idle)
  else if rows.any fun r => r.id = id ∧ rows.all fun o => o.createdAt ≤ r.createdAt then
    some (s, .charging id code now)
  else none

/-- The attempt accounting: `UPDATE … RETURNING` and its commit. -/
def charge (i : ι) (s : Store ι) (id : ℕ) (code : String) (now : ℕ) : Option (Store ι × Pc) :=
  if s.locks.Free i id then
    match s.codes.find? fun r => r.id = id ∧ r.unconsumed with
    | some row =>
      some ({ s with codes := updateCode s.codes id OtpCode.charge },
        .comparing id code now (row.attempts + 1) row.codeHash row.expiresAt)
    | none => some (s, .idle)
  else none

/-- What `verify_code` decides between its two commits. -/
def compare (hashCode : String → String) (s : Store ι) (id : ℕ) (code : String)
    (now attempts : ℕ) (codeHash : String) (expiresAt : ℕ) : Store ι × Pc :=
  if maxAttempts < attempts then (s, .idle)
  else if expiresAt ≤ now then (s, .idle)
  else
    ({ s with history := .compared id attempts :: s.history },
      if hashCode code = codeHash then .consuming id now else .idle)

def consume (i : ι) (s : Store ι) (id now : ℕ) : Option (Store ι × Pc) :=
  if s.locks.Free i id then
    match s.codes.find? fun r => r.id = id ∧ r.unconsumed with
    | some row =>
      some ({ s with
        codes := updateCode s.codes id fun r => r.consume now
        history := .redeemed id row.email now :: s.history }, .idle)
    | none => some (s, .idle)
  else none

/-- One statement of a session. -/
def act (hashCode : String → String) (i : ι) (a : Act) (s : Store ι) (pc : Pc) :
    Option (Store ι × Pc) :=
  match a, pc with
  | .request email, .idle => some (s, .requesting email s.now)
  | .supersede, .requesting email startedAt =>
    some (s, .superseding email startedAt s.now s.nextId
      ((outstanding s.codes email).map OtpCode.id) [])
  | .lock, .superseding email startedAt now seen todo locked =>
    lockNext i s email startedAt now seen todo locked
  | .issue code, .superseding email startedAt now _ [] locked =>
    some (s.issue hashCode i email code startedAt now locked, .idle)
  | .verify email code, .idle => some (s, .selecting email code s.now)
  | .select id, .selecting email code now => select s email code now id
  | .charge, .charging id code now => charge i s id code now
  | .compare, .comparing id code now attempts codeHash expiresAt =>
    some (compare hashCode s id code now attempts codeHash expiresAt)
  | .consume, .consuming id now => consume i s id now
  | .fail, _ => some ({ s with locks := s.locks.release i }, .idle)
  | .tick, pc => some ({ s with now := s.now + 1 }, pc)
  | _, _ => none

abbrev World (ι : Type*) := Config ι (Store ι) Pc

def step (hashCode : String → String) (c : World ι) (e : ι × Act) : Option (World ι) :=
  Interleaving.step (act hashCode e.1) c e

omit [DecidableEq ι] in
/-- No code yet. -/
def World.initial : World ι := ⟨⟨[], 0, 0, Locks.none, []⟩, fun _ => .idle⟩

end DataQ.Otp

/-! # What a statement does to the codes

Every statement either leaves the rows and the record alone, or is one of six. A row keeps its
address and its expiry, its attempts never fall and once consumed it stays so. -/

namespace DataQ.Otp
open DataQ.Locking DataQ.Interleaving
set_option autoImplicit false

variable {ι : Type*} {hashCode : String → String} {s t : Store ι} {r r' : OtpCode}

/-- What an update may make of a row. -/
structure OtpCode.Becomes (r r' : OtpCode) : Prop where
  id : r'.id = r.id
  email : r'.email = r.email
  expiresAt : r'.expiresAt = r.expiresAt
  attempts : r.attempts ≤ r'.attempts
  unconsumed : r'.unconsumed → r.unconsumed

theorem OtpCode.Becomes.refl (r : OtpCode) : r.Becomes r := ⟨rfl, rfl, rfl, Nat.le_refl _, fun h => h⟩

theorem OtpCode.Becomes.consume (r : OtpCode) (now : ℕ) : r.Becomes (r.consume now) :=
  ⟨rfl, rfl, rfl, Nat.le_refl _, fun h => by simp [OtpCode.consume, OtpCode.unconsumed] at h⟩

theorem OtpCode.Becomes.charge (r : OtpCode) : r.Becomes r.charge :=
  ⟨rfl, rfl, rfl, Nat.le_succ _, fun h => h⟩

theorem not_unconsumed_consume (r : OtpCode) (now : ℕ) : ¬ (r.consume now).unconsumed := by
  simp [OtpCode.consume, OtpCode.unconsumed]

/-- The rows of `t` are those of `s` after some updates, and new ones. -/
structure Evolves (s t : Store ι) : Prop where
  nextId : s.nextId ≤ t.nextId
  kept : ∀ r ∈ s.codes, ∃ r' ∈ t.codes, r.Becomes r'
  origin : ∀ r' ∈ t.codes, (∃ r ∈ s.codes, r.Becomes r') ∨ s.nextId ≤ r'.id

theorem Evolves.of_eq (hcodes : t.codes = s.codes) (hnext : t.nextId = s.nextId) :
    Evolves s t where
  nextId := Nat.le_of_eq hnext.symm
  kept := fun r hr => ⟨r, hcodes ▸ hr, .refl r⟩
  origin := fun r hr => .inl ⟨r, hcodes ▸ hr, .refl r⟩

theorem Evolves.of_map {change : OtpCode → OtpCode} {rows : List OtpCode}
    (hchange : ∀ r ∈ s.codes, r.Becomes (change r)) (hnext : s.nextId ≤ t.nextId)
    (hrows : ∀ r ∈ rows, s.nextId ≤ r.id) (hcodes : t.codes = s.codes.map change ++ rows) :
    Evolves s t where
  nextId := hnext
  kept := fun r hr =>
    ⟨change r, hcodes ▸ List.mem_append_left _ (List.mem_map_of_mem hr), hchange r hr⟩
  origin := by
    intro r' hr'
    rw [hcodes] at hr'
    rcases List.mem_append.mp hr' with hr' | hr'
    · obtain ⟨r, hr, rfl⟩ := List.mem_map.mp hr'
      exact .inl ⟨r, hr, hchange r hr⟩
    · exact .inr (hrows r' hr')

theorem Evolves.updateCode {id : ℕ} {change : OtpCode → OtpCode}
    (hchange : ∀ r : OtpCode, r.Becomes (change r)) (hnext : t.nextId = s.nextId)
    (hcodes : t.codes = updateCode s.codes id change) : Evolves s t := by
  have hrow : ∀ r ∈ s.codes, r.Becomes (if r.id = id ∧ r.unconsumed then change r else r) := by
    intro r _
    split
    · exact hchange r
    · exact .refl r
  have hcodes' : t.codes =
      s.codes.map (fun r => if r.id = id ∧ r.unconsumed then change r else r) ++ [] := by
    rw [hcodes, Otp.updateCode, List.append_nil]
  exact .of_map hrow (Nat.le_of_eq hnext.symm) (by simp) hcodes'

/-- Of no account for what follows: it neither supersedes, compares nor consumes. -/
def Pc.quiet : Pc → Bool
  | .superseding .. | .comparing .. | .consuming .. => false
  | _ => true

variable [DecidableEq ι]

/-- What a statement of session `i` does. -/
inductive Moves (hashCode : String → String) (i : ι) (s : Store ι) :
    Act → Pc → Store ι → Pc → Prop
  | quiet {a : Act} {pc pc' : Pc} {t : Store ι} (hcodes : t.codes = s.codes)
      (hnext : t.nextId = s.nextId) (hhistory : t.history = s.history)
      (hpc : pc' = pc ∨ pc'.quiet) : Moves hashCode i s a pc t pc'
  | supersede {email : String} {startedAt : ℕ} :
      Moves hashCode i s .supersede (.requesting email startedAt) s
        (.superseding email startedAt s.now s.nextId
          ((outstanding s.codes email).map OtpCode.id) [])
  | lock {email : String} {startedAt now seen id : ℕ} {todo locked locked' : List ℕ}
      {t : Store ι} (hcodes : t.codes = s.codes) (hnext : t.nextId = s.nextId)
      (hhistory : t.history = s.history)
      (hlocked : locked' = id :: locked ∨
        locked' = locked ∧ ∀ r ∈ s.codes, r.id = id → ¬ r.unconsumed) :
      Moves hashCode i s .lock (.superseding email startedAt now seen (id :: todo) locked) t
        (.superseding email startedAt now seen todo locked')
  | issue {email code : String} {startedAt now seen : ℕ} {locked : List ℕ} :
      Moves hashCode i s (.issue code) (.superseding email startedAt now seen [] locked)
        (s.issue hashCode i email code startedAt now locked) .idle
  | charge {code : String} {now : ℕ} {row : OtpCode} (hrow : row ∈ s.codes)
      (hun : row.unconsumed) :
      Moves hashCode i s .charge (.charging row.id code now)
        { s with codes := updateCode s.codes row.id OtpCode.charge }
        (.comparing row.id code now (row.attempts + 1) row.codeHash row.expiresAt)
  | compare {id now attempts expiresAt : ℕ} {code codeHash : String} {pc' : Pc}
      (hattempts : attempts ≤ maxAttempts) (hexpires : now < expiresAt)
      (hpc : pc' = .consuming id now ∨ pc'.quiet) :
      Moves hashCode i s .compare (.comparing id code now attempts codeHash expiresAt)
        { s with history := .compared id attempts :: s.history } pc'
  | consume {now : ℕ} {row : OtpCode} (hrow : row ∈ s.codes) (hun : row.unconsumed) :
      Moves hashCode i s .consume (.consuming row.id now)
        { s with
          codes := updateCode s.codes row.id fun r => r.consume now
          history := .redeemed row.id row.email now :: s.history } .idle

theorem moves_lockNext {i : ι} {email : String} {startedAt now seen : ℕ} {todo locked : List ℕ}
    {pc' : Pc} (h : lockNext i s email startedAt now seen todo locked = some (t, pc')) :
    Moves hashCode i s .lock (.superseding email startedAt now seen todo locked) t pc' := by
  cases todo with
  | nil => cases h
  | cons id todo =>
    simp only [lockNext] at h
    split at h
    · split at h
      · obtain ⟨rfl, rfl⟩ : _ ∧ _ := by simpa using h
        exact .lock rfl rfl rfl (.inl rfl)
      · next hgone =>
        obtain ⟨rfl, rfl⟩ : _ ∧ _ := by simpa using h
        refine .lock rfl rfl rfl (.inr ⟨rfl, fun r hr hid hun => hgone ?_⟩)
        exact List.any_eq_true.mpr ⟨r, hr, by simp [hid, hun]⟩
    · cases h

theorem moves_select {i : ι} {email code : String} {now id : ℕ} {a : Act} {pc pc' : Pc}
    (h : select s email code now id = some (t, pc')) : Moves hashCode i s a pc t pc' := by
  simp only [select] at h
  split at h
  · obtain ⟨rfl, rfl⟩ : _ ∧ _ := by simpa using h
    exact .quiet rfl rfl rfl (.inr rfl)
  · split at h
    · obtain ⟨rfl, rfl⟩ : _ ∧ _ := by simpa using h
      exact .quiet rfl rfl rfl (.inr rfl)
    · cases h

theorem moves_charge {i : ι} {id now : ℕ} {code : String} {pc' : Pc}
    (h : charge i s id code now = some (t, pc')) :
    Moves hashCode i s .charge (.charging id code now) t pc' := by
  simp only [charge] at h
  split at h
  · split at h
    · next row hfound =>
      have hmatch := List.find?_some hfound
      obtain ⟨rfl, hun⟩ : row.id = id ∧ row.unconsumed := by simpa using hmatch
      obtain ⟨rfl, rfl⟩ : _ ∧ _ := by simpa using h
      exact .charge (List.mem_of_find?_eq_some hfound) hun
    · obtain ⟨rfl, rfl⟩ : _ ∧ _ := by simpa using h
      exact .quiet rfl rfl rfl (.inr rfl)
  · cases h

theorem moves_compare {i : ι} {id now attempts expiresAt : ℕ} {code codeHash : String} :
    Moves hashCode i s .compare (.comparing id code now attempts codeHash expiresAt)
      (compare hashCode s id code now attempts codeHash expiresAt).1
      (compare hashCode s id code now attempts codeHash expiresAt).2 := by
  simp only [compare]
  split
  · exact .quiet rfl rfl rfl (.inr rfl)
  · split
    · exact .quiet rfl rfl rfl (.inr rfl)
    · apply Moves.compare
      · omega
      · omega
      · dsimp only
        split
        · exact .inl rfl
        · exact .inr rfl

theorem moves_consume {i : ι} {id now : ℕ} {pc' : Pc}
    (h : consume i s id now = some (t, pc')) :
    Moves hashCode i s .consume (.consuming id now) t pc' := by
  simp only [consume] at h
  split at h
  · split at h
    · next row hfound =>
      have hmatch := List.find?_some hfound
      obtain ⟨rfl, hun⟩ : row.id = id ∧ row.unconsumed := by simpa using hmatch
      obtain ⟨rfl, rfl⟩ : _ ∧ _ := by simpa using h
      exact .consume (List.mem_of_find?_eq_some hfound) hun
    · obtain ⟨rfl, rfl⟩ : _ ∧ _ := by simpa using h
      exact .quiet rfl rfl rfl (.inr rfl)
  · cases h

theorem moves_act {i : ι} {a : Act} {pc pc' : Pc} (h : act hashCode i a s pc = some (t, pc')) :
    Moves hashCode i s a pc t pc' := by
  unfold act at h
  split at h
  · obtain ⟨rfl, rfl⟩ : _ ∧ _ := by simpa using h
    exact .quiet rfl rfl rfl (.inr rfl)
  · obtain ⟨rfl, rfl⟩ : _ ∧ _ := by simpa using h
    exact .supersede
  · exact moves_lockNext h
  · obtain ⟨rfl, rfl⟩ : _ ∧ _ := by simpa using h
    exact .issue
  · obtain ⟨rfl, rfl⟩ : _ ∧ _ := by simpa using h
    exact .quiet rfl rfl rfl (.inr rfl)
  · exact moves_select h
  · exact moves_charge h
  · obtain ⟨rfl, rfl⟩ := Prod.mk.inj (Option.some.inj h)
    exact moves_compare
  · exact moves_consume h
  · obtain ⟨rfl, rfl⟩ : _ ∧ _ := by simpa using h
    exact .quiet rfl rfl rfl (.inr rfl)
  · obtain ⟨rfl, rfl⟩ : _ ∧ _ := by simpa using h
    exact .quiet rfl rfl rfl (.inl rfl)
  · cases h

theorem Moves.evolves {i : ι} {a : Act} {pc pc' : Pc} (h : Moves hashCode i s a pc t pc') :
    Evolves s t := by
  cases h with
  | quiet hcodes hnext => exact .of_eq hcodes hnext
  | supersede => exact .of_eq rfl rfl
  | lock hcodes hnext => exact .of_eq hcodes hnext
  | issue =>
    refine .of_map (fun r _ => ?_) (Nat.le_succ _) (by simp) rfl
    split
    · exact .consume r _
    · exact .refl r
  | charge => exact .updateCode .charge rfl rfl
  | compare => exact .of_eq rfl rfl
  | consume => exact .updateCode (fun r => .consume r _) rfl rfl

end DataQ.Otp
