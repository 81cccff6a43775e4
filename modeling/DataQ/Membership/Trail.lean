import DataQ.Membership.Evidence

/-! # What has happened to the members table

The committed history of `workspace_members`, as far as the promises of the door speak of it: the
addresses removed since membership was switched on, and the addresses removed and not added back.
The switch is the table's emptiness, so emptying it ends what an earlier removal promised. -/

namespace DataQ.Membership
open DataQ.Locking DataQ.Interleaving
set_option autoImplicit false

variable {Address ι : Type*}

/-- `switchedOn`: membership was switched on and is on; the addresses removed since. `removed`:
removed while membership stayed on, and not added since. `sinceOn`: the same, forgotten when the
table is emptied. -/
structure Trail (Address : Type*) where
  switchedOn : Option (List Address)
  removed : List Address
  sinceOn : List Address

def Trail.start : Trail Address := ⟨none, [], []⟩

/-- The addresses whose rows are no longer there. -/
def goneAddresses (before after : List (WorkspaceMember Address)) : List Address :=
  (before.filter fun m => !after.any (·.id = m.id)).map WorkspaceMember.email

/-- The addresses an admin has added. -/
def addedAddresses (before after : List (WorkspaceMember Address)) : List Address :=
  (after.filter fun m => m.source = .admin && !before.any (·.id = m.id)).map WorkspaceMember.email

theorem mem_goneAddresses {before after : List (WorkspaceMember Address)} {email : Address} :
    email ∈ goneAddresses before after ↔
      ∃ m ∈ before, m.email = email ∧ ∀ m' ∈ after, m'.id ≠ m.id := by
  simp only [goneAddresses, List.mem_map, List.mem_filter, Bool.not_eq_true', List.any_eq_false,
    decide_eq_true_eq]
  exact ⟨fun ⟨m, ⟨hm, hgone⟩, hemail⟩ => ⟨m, hm, hemail, hgone⟩,
    fun ⟨m, hm, hemail, hgone⟩ => ⟨m, ⟨hm, hgone⟩, hemail⟩⟩

/-- Rows that keep their ids are not gone. -/
theorem goneAddresses_eq_nil {before after : List (WorkspaceMember Address)}
    (h : ∀ m ∈ before, ∃ m' ∈ after, m'.id = m.id) : goneAddresses before after = [] := by
  apply List.eq_nil_iff_forall_not_mem.mpr
  intro email hemail
  obtain ⟨m, hm, -, hgone⟩ := mem_goneAddresses.mp hemail
  obtain ⟨m', hm', hid⟩ := h m hm
  exact hgone m' hm' hid

variable [DecidableEq Address]

/-- The trail after a commit has taken the table from `before` to `after`. -/
def Trail.observe (t : Trail Address) (before after : List (WorkspaceMember Address)) :
    Trail Address :=
  let gone := goneAddresses before after
  let added := addedAddresses before after
  if after.isEmpty then
    { switchedOn := none
      removed := t.removed
      sinceOn := [] }
  else
    { switchedOn := if before.isEmpty then some [] else t.switchedOn.map (· ++ gone)
      removed := (t.removed ++ gone).filter (!added.contains ·)
      sinceOn := (t.sinceOn ++ gone).filter (!added.contains ·) }

theorem observe_switchedOn {t : Trail Address} {before after : List (WorkspaceMember Address)}
    {gone : List Address} (h : (t.observe before after).switchedOn = some gone) :
    after ≠ [] ∧ (before = [] ∨ ∃ earlier, t.switchedOn = some earlier ∧
      gone = earlier ++ goneAddresses before after) := by
  unfold Trail.observe at h
  split at h
  · cases h
  · next hafter =>
    refine ⟨by simpa using hafter, ?_⟩
    dsimp only at h
    split at h
    · next hbefore => exact .inl (by simpa using hbefore)
    · obtain ⟨earlier, hearlier, heq⟩ := Option.map_eq_some_iff.mp h
      exact .inr ⟨earlier, hearlier, heq.symm⟩

theorem observe_sinceOn {t : Trail Address} {before after : List (WorkspaceMember Address)}
    {email : Address} (h : email ∈ (t.observe before after).sinceOn) :
    after ≠ [] ∧ (email ∈ t.sinceOn ∨ email ∈ goneAddresses before after) ∧
      email ∉ addedAddresses before after := by
  unfold Trail.observe at h
  split at h
  · cases h
  · next hafter =>
    simp only [List.mem_filter, List.mem_append, Bool.not_eq_true', ← Bool.not_eq_true,
      List.contains_iff_mem] at h
    exact ⟨by simpa using hafter, h.1, h.2⟩

/-! ## Addresses that are promised a way in -/

/-- If membership was switched on, the address is admitted or was removed since. -/
def Trail.covers (t : Trail Address) (settings : Settings Address) (s : Store ι Address)
    (email : Address) : Bool :=
  t.switchedOn.all fun gone => s.isMember settings email || gone.contains email

variable {settings : Settings Address} {s s' : Store ι Address} {t : Trail Address}
  {email : Address}

theorem covers_iff : t.covers settings s email = true ↔ ∀ gone, t.switchedOn = some gone →
    s.isMember settings email = true ∨ email ∈ gone := by
  simp only [Trail.covers, Option.all_eq_true, Bool.or_eq_true, List.contains_iff_mem]

theorem isMember_of_row {m : WorkspaceMember Address} (hm : m ∈ s.members)
    (hemail : m.email = email) : s.isMember settings email = true := by
  have hrow : (s.rowFor email).isSome = true := by
    rw [Store.rowFor, List.find?_isSome]
    exact ⟨m, hm, by simpa using hemail⟩
  simp [Store.isMember, hrow]

/-- While membership is on, it is a row, the environment or the developer bypass that admits. -/
theorem isMember_on (hon : s.members ≠ []) : s.isMember settings email = true ↔
    settings.devBypassActive = true ∨ (∃ m ∈ s.members, m.email = email) ∨
      settings.envVerdict email = .granted := by
  have hactive : s.enforcementActive = true := by
    simp [Store.enforcementActive, hon]
  have hrow : (s.rowFor email).isSome = true ↔ ∃ m ∈ s.members, m.email = email := by
    simp [Store.rowFor, List.find?_isSome]
  simp only [Store.isMember, hactive, Bool.or_eq_true, decide_eq_true_eq, Bool.not_true,
    Bool.false_and, Bool.false_eq_true, or_false, hrow, or_assoc]

/-- The rows that are left keep an address admitted, and the others are on the trail. -/
theorem covers_of_rows (h : t.covers settings s email = true) (hon : s.members ≠ [])
    (hrows : ∀ m ∈ s.members, (∃ m' ∈ s'.members, m'.email = m.email) ∨
      ∀ m' ∈ s'.members, m'.id ≠ m.id) :
    (t.observe s.members s'.members).covers settings s' email = true := by
  rw [covers_iff] at h ⊢
  intro gone hgone
  obtain ⟨hafter, hbefore⟩ := observe_switchedOn hgone
  obtain ⟨earlier, hearlier, rfl⟩ := hbefore.resolve_left hon
  rcases h earlier hearlier with hmember | hin
  · rw [isMember_on hon] at hmember
    rcases hmember with hdev | ⟨m, hm, hemail⟩ | hgranted
    · exact .inl ((isMember_on hafter).mpr (.inl hdev))
    · rcases hrows m hm with ⟨m', hm', hemail'⟩ | hgone
      · exact .inl (isMember_of_row hm' (hemail'.trans hemail))
      · exact .inr (List.mem_append_right _ (mem_goneAddresses.mpr ⟨m, hm, hemail, hgone⟩))
    · exact .inl ((isMember_on hafter).mpr (.inr (.inr hgranted)))
  · exact .inr (List.mem_append_left _ hin)

/-- A table that stays as it is changes nothing for an address. -/
theorem covers_of_same (h : t.covers settings s email = true) (hsame : s'.members = s.members) :
    (t.observe s.members s'.members).covers settings s' email = true := by
  by_cases hon : s.members = []
  · rw [covers_iff]
    intro gone hgone
    exact absurd (hsame.trans hon) (observe_switchedOn hgone).1
  · refine covers_of_rows h hon fun m hm => .inl ⟨m, ?_, rfl⟩
    rw [hsame]
    exact hm

/-! ## Addresses that are promised to stay out -/

/-- What the removals so far promise while the table is not emptied. -/
def Trail.Barred (t : Trail Address) (s : Store ι Address) : Prop :=
  ∀ email ∈ t.sinceOn, s.members ≠ [] ∧ ∀ m ∈ s.members, m.email ≠ email

theorem Trail.Barred.of_same (h : t.Barred s) (hsame : s'.members = s.members) :
    (t.observe s.members s'.members).Barred s' := by
  intro email hemail
  obtain ⟨-, hold | hgone, -⟩ := observe_sinceOn hemail
  · rw [hsame]
    exact h email hold
  · rw [goneAddresses_eq_nil fun m hm => ⟨m, hsame ▸ hm, rfl⟩] at hgone
    cases hgone

end DataQ.Membership
