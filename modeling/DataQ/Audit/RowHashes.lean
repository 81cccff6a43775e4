import DataQ.Audit.ChainLaws
import DataQ.Audit.Payloads

/-! # Row hashes

`audit_service.record` and `audit_chain.compute_row_hash`: the text that a row's hash is taken of,
when the row is chained and when it is read back. -/

namespace DataQ.Audit
set_option autoImplicit false

/-- What a caller hands to `record`; the actor is not hashed. -/
structure RecordCall where
  action : Text
  entityType : Text
  entityId : Option Text
  actionClass : Text
  actorKind : Text
  before : Option (List (Text × PyValue))
  after : Option (List (Text × PyValue))
  requestId : Option Text

/-- The hashed columns other than `id` and `occurred_at`. -/
structure RowBody where
  actionClass : Text
  action : Text
  entityType : Text
  entityId : Option Text
  actorKind : Text
  before : Option Entries
  after : Option Entries
  requestId : Option Text

def auditActionClasses : List Text := ["config".toList, "access".toList]

def auditActorKinds : List Text := ["user".toList, "pat".toList, "webhook".toList]

/-- The row that `record` adds, with the request id of the context; `none` where it raises. -/
def record (py : Python) (scrubText : Text → Text) (contextRequestId : Option Text)
    (call : RecordCall) : Option RowBody :=
  if call.actionClass ∉ auditActionClasses ∨ call.actorKind ∉ auditActorKinds then none
  else some
    { actionClass := call.actionClass
      action := call.action
      entityType := call.entityType
      entityId := call.entityId
      actorKind := call.actorKind
      before := call.before.map (sanitizePayload py scrubText)
      after := call.after.map (sanitizePayload py scrubText)
      requestId := call.requestId.or contextRequestId }

/-! ## The hash of a row -/

def optionText : Option Text → Document
  | none => .null
  | some s => .str s

def optionEntries : Option Entries → Document
  | none => .null
  | some entries => .mapping entries

/-- The payload that `compute_row_hash` writes. -/
def rowEntries (prevHash : Option Text) (id occurredAt : Text) (body : RowBody) : Entries :=
  [("prev_hash".toList, optionText prevHash), ("id".toList, .str id),
    ("occurred_at".toList, .str occurredAt), ("action_class".toList, .str body.actionClass),
    ("action".toList, .str body.action), ("entity_type".toList, .str body.entityType),
    ("entity_id".toList, optionText body.entityId), ("actor_kind".toList, .str body.actorKind),
    ("before".toList, optionEntries body.before), ("after".toList, optionEntries body.after),
    ("request_id".toList, optionText body.requestId)]

/-- `compute_row_hash` over the canonical columns: `sha256` gives the digest in hexadecimal, `uuid`
and `isoformat` print the id and the time. -/
def rowDigest (sha256 : Text → Text) (uuid isoformat : ℕ → Text) (prevHash : Option Text)
    (canonical : ℕ × ℕ × RowBody) : Text :=
  sha256 (dumps true (.mapping
    (rowEntries prevHash (uuid canonical.1) (isoformat canonical.2.1) canonical.2.2)))

/-- What the column of a payload gives back of it. -/
def storedPayload (column : Jsonb) : Option Entries → Option (Option Entries)
  | none => some none
  | some payload => (column.storedEntries payload).map fun entries => some (column.order entries)

/-- The row as it is read back; `none` where a payload column refuses it. -/
def storedBody (column : Jsonb) (body : RowBody) : Option RowBody :=
  match storedPayload column body.before, storedPayload column body.after with
  | some before, some after => some { body with before := before, after := after }
  | _, _ => none

/-! ## What reading back changes -/

variable {column : Jsonb}

theorem stored_optionEntries {payload payload' : Option Entries}
    (h : storedPayload column payload = some payload') :
    column.stored (optionEntries payload) = some (optionEntries payload') := by
  cases payload with
  | none =>
    cases h
    rfl
  | some entries =>
    obtain ⟨after, hafter, rfl⟩ := Option.map_eq_some_iff.mp h
    rw [optionEntries, Jsonb.stored, hafter]
    rfl

theorem storedBody_spec {body body' : RowBody} (h : storedBody column body = some body') :
    ∃ before after, storedPayload column body.before = some before ∧
      storedPayload column body.after = some after ∧
      body' = { body with before := before, after := after } := by
  unfold storedBody at h
  split at h
  · next before after hbefore hafter =>
    cases h
    exact ⟨before, after, hbefore, hafter, rfl⟩
  · cases h

/-- Every dict of the two payloads has distinct keys. -/
structure RowBody.DistinctKeys (body : RowBody) : Prop where
  before : (optionEntries body.before).DistinctKeys
  after : (optionEntries body.after).DistinctKeys

/-- The floats of the two payloads. -/
def RowBody.floats (body : RowBody) : List Double :=
  (optionEntries body.before).floats ++ (optionEntries body.after).floats

theorem rowText_stored_iff {body body' : RowBody} (h : storedBody column body = some body')
    (hkeys : body.DistinctKeys) (prevHash : Option Text) (id occurredAt : Text) :
    dumps true (.mapping (rowEntries prevHash id occurredAt body')) =
        dumps true (.mapping (rowEntries prevHash id occurredAt body)) ↔
      ∀ f ∈ body.floats, f.whole = false := by
  obtain ⟨before, after, hbefore, hafter, rfl⟩ := storedBody_spec h
  have hbefore := stored_optionEntries hbefore
  have hafter := stored_optionEntries hafter
  constructor
  · intro hsame
    have hmarks := congrArg marks hsame
    have hmarksBefore := marks_stored hbefore true
    have hmarksAfter := marks_stored hafter true
    rw [marks_mapping, marks_mapping] at hmarks
    simp only [rowEntries, List.map_cons, List.sum_cons] at hmarks
    apply wholeMarks_eq_zero.mp
    rw [RowBody.floats, wholeMarks_append]
    omega
  · intro hfloats
    have hsame := dumps_stored hbefore hkeys.before fun f hf =>
      hfloats f (List.mem_append_left _ hf)
    have hsame' := dumps_stored hafter hkeys.after fun f hf =>
      hfloats f (List.mem_append_right _ hf)
    rw [dumps, dumps]
    simp only [rowEntries, dumpsEntries, hsame, hsame']

variable {py : Python} {scrubText : Text → Text} {contextRequestId : Option Text}
  {call : RecordCall} {body : RowBody}

theorem record_payloads (h : record py scrubText contextRequestId call = some body) :
    body.before = call.before.map (sanitizePayload py scrubText) ∧
      body.after = call.after.map (sanitizePayload py scrubText) := by
  unfold record at h
  split at h
  · cases h
  · cases h
    exact ⟨rfl, rfl⟩

theorem record_distinctKeys (h : record py scrubText contextRequestId call = some body) :
    body.DistinctKeys := by
  obtain ⟨hbefore, hafter⟩ := record_payloads h
  have hpayload : ∀ payload : Option (List (Text × PyValue)),
      (optionEntries (payload.map (sanitizePayload py scrubText))).DistinctKeys := by
    intro payload
    cases payload with
    | none => trivial
    | some payload => exact distinctKeys_sanitizePayload payload
  exact ⟨hbefore ▸ hpayload call.before, hafter ▸ hpayload call.after⟩

theorem record_floats (h : record py scrubText contextRequestId call = some body) :
    (∀ f ∈ body.floats, f.whole = false) ↔
      ∀ payload ∈ call.before.toList ++ call.after.toList,
        ∀ f ∈ floatsOfEntries (sanitizePayload py scrubText payload), f.whole = false := by
  obtain ⟨hbefore, hafter⟩ := record_payloads h
  have hpayload : ∀ payload : Option (List (Text × PyValue)),
      (∀ f ∈ (optionEntries (payload.map (sanitizePayload py scrubText))).floats,
        f.whole = false) ↔
      ∀ p ∈ payload.toList, ∀ f ∈ floatsOfEntries (sanitizePayload py scrubText p),
        f.whole = false := by
    intro payload
    cases payload with
    | none => simp [optionEntries, Document.floats]
    | some payload => simp [optionEntries, Document.floats]
  rw [RowBody.floats, List.forall_mem_append, List.forall_mem_append, hbefore, hafter, hpayload,
    hpayload]

/-- The hash of a recorded row survives storage exactly when no whole float stands in what its
payloads keep. -/
theorem row_hash_survives_iff (sha256 : Text → Text) (hsha256 : Function.Injective sha256)
    (uuid isoformat : ℕ → Text) (db : AuditDb RowBody Text) (now : ℕ)
    (new recorded : List (Draft RowBody)) (row : AuditEvent RowBody Text)
    (hrow : row ∈ commitRows (rowDigest sha256 uuid isoformat) db now new recorded)
    (hrecord : record py scrubText contextRequestId call = some row.body)
    (stored : RowBody) (hstored : storedBody column row.body = some stored) :
    ({ row with body := stored } : AuditEvent RowBody Text).Sealed
        (rowDigest sha256 uuid isoformat) ↔
      ∀ payload ∈ call.before.toList ++ call.after.toList,
        ∀ f ∈ floatsOfEntries (sanitizePayload py scrubText payload), f.whole = false := by
  rw [← record_floats hrecord,
    ← rowText_stored_iff hstored (record_distinctKeys hrecord) row.prevHash (uuid row.id)
      (isoformat row.occurredAt)]
  show row.rowHash = some (sha256 _) ↔ _
  rw [commitRows_sealed hrow, Option.some.injEq]
  show sha256 _ = sha256 _ ↔ _
  rw [hsha256.eq_iff, eq_comm]
  rfl

/-- A check whose upper bound is changed. -/
def boundCall (bound : Double) : RecordCall where
  action := "check.update".toList
  entityType := "check".toList
  entityId := some "c-1".toList
  actionClass := "config".toList
  actorKind := "user".toList
  before := none
  after := some [("config".toList, .mapping [("max_value".toList, .float bound)])]
  requestId := none

def boundBody (bound : Document) : RowBody where
  actionClass := "config".toList
  action := "check.update".toList
  entityType := "check".toList
  entityId := some "c-1".toList
  actorKind := "user".toList
  before := none
  after := some [("config".toList, .mapping [("max_value".toList, bound)])]
  requestId := none

/-- A column that gives the entries of a dict back from the last to the first. -/
def reversing : Jsonb := ⟨List.reverse, List.reverse_perm⟩

def boundRow (bound : Double) : AuditEvent RowBody Text :=
  ⟨1, 10, boundBody (.float bound), none,
    some (rowDigest id (Nat.toDigits 10) (Nat.toDigits 10) none (1, 10, boundBody (.float bound)))⟩

/-- `0.5`. -/
def half : Double := ⟨false, 5, -1, by decide⟩

/-- `1e+16`. -/
def tenToSixteen : Double := ⟨false, 1, 16, by decide⟩

theorem row_hash_survives_iff_half :
    ({ boundRow half with body := boundBody (.float half) } : AuditEvent RowBody Text).Sealed
        (rowDigest id (Nat.toDigits 10) (Nat.toDigits 10)) ↔
      ∀ payload ∈ (boundCall half).before.toList ++ (boundCall half).after.toList,
        ∀ f ∈ floatsOfEntries (sanitizePayload asciiPython id payload), f.whole = false :=
  row_hash_survives_iff id Function.injective_id (Nat.toDigits 10) (Nat.toDigits 10) AuditDb.empty
    10 [] [⟨1, boundBody (.float half)⟩] (boundRow half) (List.mem_singleton_self _)
    (rfl : record asciiPython id none (boundCall half) = some (boundRow half).body)
    (boundBody (.float half)) (rfl : storedBody reversing (boundRow half).body = some _)

/-- A row with the bound `1e+16` is chained with one hash and read back with another. -/
theorem whole_bound_breaks_hash :
    record asciiPython id none (boundCall tenToSixteen) =
        some (boundRow tenToSixteen).body ∧
      boundRow tenToSixteen ∈ commitRows (rowDigest id (Nat.toDigits 10) (Nat.toDigits 10))
        AuditDb.empty 10 [] [⟨1, (boundRow tenToSixteen).body⟩] ∧
      storedBody reversing (boundRow tenToSixteen).body =
        some (boundBody (.int 10000000000000000)) ∧
      ¬ ({ boundRow tenToSixteen with body := boundBody (.int 10000000000000000) } :
        AuditEvent RowBody Text).Sealed (rowDigest id (Nat.toDigits 10) (Nat.toDigits 10)) := by
  refine ⟨rfl, List.mem_singleton_self _, rfl, ?_⟩
  show ¬ (some _ = some _)
  decide

end DataQ.Audit
