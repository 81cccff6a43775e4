import DataQ.Foundations.Decimal
import DataQ.Foundations.Documents

/-! # Audit payloads

`audit_service._jsonable`, `_scrub_value`, `_cap_payload`: what an audit row keeps of the `before`
and `after` that a caller hands to `record`. -/

namespace DataQ.Audit
set_option autoImplicit false

/-- A value in a payload. A key is known by what `str` prints of it; a date, a `datetime` and a
`UUID` by what becomes of it; `other` by what `json.dumps` prints of it with `default=str`. -/
inductive PyValue
  | null
  | bool (value : Bool)
  | int (value : ℤ)
  | float (value : Double)
  | str (value : Text)
  | decimal (value : Decimal)
  | date (isoformat : Text)
  | uuid (printed : Text)
  | sequence (items : List PyValue)
  | mapping (entries : List (Text × PyValue))
  | other (printed : Text)

/-- A dict built entry by entry. -/
def dictOf {α : Type} (entries : List (Text × α)) : List (Text × α) :=
  entries.foldl (fun dict e => setField e.1 e.2 dict) []

mutual

def jsonable : PyValue → Document
  | .null => .null
  | .bool value => .bool value
  | .int n => .int n
  | .float f => .float f
  | .str s => .str s
  | .decimal d => .str d.text
  | .date isoformat => .str isoformat
  | .uuid printed => .str printed
  | .sequence items => .list (jsonableItems items)
  | .mapping entries => .mapping (dictOf (jsonableEntries entries))
  | .other printed => .other printed

def jsonableItems : List PyValue → List Document
  | [] => []
  | item :: items => jsonable item :: jsonableItems items

def jsonableEntries : List (Text × PyValue) → Entries
  | [] => []
  | (key, value) :: entries => (key, jsonable value) :: jsonableEntries entries

end

def credentialKeys : List String :=
  ["password", "passwd", "secret", "token", "api_key", "apikey", "authorization", "auth",
    "access_key", "private_key", "passphrase", "catalog_secret", "x-vault-token", "client_token",
    "secret_id", "role_id", "api-key", "x-api-key", "cookie", "set-cookie"]

def isCredentialKey (py : Python) (key : Text) : Bool :=
  credentialKeys.any fun credential => py.lower (pyStrip key) = credential.toList

mutual

/-- `_scrub_value`; `scrubText` is the logger's `_scrub_secret_strings`. -/
def scrubValue (py : Python) (scrubText : Text → Text) : Document → Document
  | .mapping entries => .mapping (dictOf (scrubEntries py scrubText entries))
  | .list items => .list (scrubItems py scrubText items)
  | .str s => .str (scrubText s)
  | value => value

def scrubItems (py : Python) (scrubText : Text → Text) : List Document → List Document
  | [] => []
  | item :: items => scrubValue py scrubText item :: scrubItems py scrubText items

def scrubEntries (py : Python) (scrubText : Text → Text) : Entries → Entries
  | [] => []
  | (key, value) :: entries =>
    (key, if isCredentialKey py key then .str "<redacted>".toList
      else scrubValue py scrubText value) :: scrubEntries py scrubText entries

end

/-! ## The cap -/

def maxPayloadBytes : ℕ := 16384

def truncationKey : Text := "_truncated".toList

/-- `_encoded_size`: the text is in ASCII, one byte for each character. -/
def encodedSize (payload : Entries) : ℕ := (dumps false (.mapping payload)).length

def marker (names : List Text) : Document :=
  .mapping
    [("dropped_fields".toList, .list ((names.insertionSort (· ≤ ·)).map .str)),
      ("limit_bytes".toList, .int maxPayloadBytes)]

/-- The loop of `_cap_payload` over the fields, the largest first. -/
def dropFields : List Text → Entries × List Text → Entries × List Text
  | [], out => out
  | key :: keys, (kept, dropped) =>
    if encodedSize (setField truncationKey (marker dropped) kept) ≤ maxPayloadBytes then
      (kept, dropped)
    else dropFields keys (kept.filter (·.1 ≠ key), dropped ++ [key])

def capPayload (payload : Entries) : Entries :=
  if encodedSize payload ≤ maxPayloadBytes then payload
  else
    let sizes := payload.map fun e => (e.1, encodedSize [e])
    let out := dropFields ((sizes.insertionSort fun a b => b.2 ≤ a.2).map Prod.fst) (payload, [])
    setField truncationKey (marker out.2) out.1

def sanitizePayload (py : Python) (scrubText : Text → Text) (payload : List (Text × PyValue)) :
    Entries :=
  capPayload (dictOf (scrubEntries py scrubText (dictOf (jsonableEntries payload))))

/-! ## Distinct keys -/

theorem mem_setField {α : Type} {key : Text} {value : α} {fields : List (Text × α)}
    {e : Text × α} (h : e ∈ setField key value fields) : e = (key, value) ∨ e ∈ fields := by
  induction fields with
  | nil => exact .inl (List.mem_singleton.mp h)
  | cons field fields ih =>
    unfold setField at h
    split at h
    · rcases List.mem_cons.mp h with rfl | hrest
      · exact .inl rfl
      · exact .inr (List.mem_cons_of_mem _ hrest)
    · rcases List.mem_cons.mp h with rfl | hrest
      · exact .inr List.mem_cons_self
      · exact (ih hrest).imp_right (List.mem_cons_of_mem _)

theorem dictOf_append {α : Type} (entries : List (Text × α)) (e : Text × α) :
    dictOf (entries ++ [e]) = setField e.1 e.2 (dictOf entries) := by
  simp [dictOf]

theorem dictOf_spec {α : Type} (entries : List (Text × α)) :
    ((dictOf entries).map Prod.fst).Nodup ∧ ∀ e ∈ dictOf entries, e ∈ entries := by
  induction entries using List.reverseRecOn with
  | nil => simp [dictOf]
  | append_singleton entries e ih =>
    rw [dictOf_append]
    refine ⟨nodup_setField ih.1, fun e' he' => ?_⟩
    rcases mem_setField he' with rfl | hold
    · exact List.mem_append_right _ (List.mem_singleton_self _)
    · exact List.mem_append_left _ (ih.2 e' hold)

theorem distinctEntries_iff {entries : Entries} :
    distinctEntries entries ↔ ∀ e ∈ entries, e.2.DistinctKeys := by
  induction entries with
  | nil => simp [distinctEntries]
  | cons entry entries ih => rw [distinctEntries, ih, List.forall_mem_cons]

theorem distinctKeys_dictOf {entries : Entries} (h : distinctEntries entries) :
    (Document.mapping (dictOf entries)).DistinctKeys := by
  obtain ⟨hnodup, hmem⟩ := dictOf_spec entries
  exact ⟨hnodup, distinctEntries_iff.mpr fun e he => distinctEntries_iff.mp h e (hmem e he)⟩

mutual

theorem distinctKeys_jsonable : ∀ v : PyValue, (jsonable v).DistinctKeys
  | .null | .bool _ | .int _ | .float _ | .str _ | .decimal _ | .date _ | .uuid _ | .other _ =>
    trivial
  | .sequence items => distinctItems_jsonable items
  | .mapping entries => distinctKeys_dictOf (distinctEntries_jsonable entries)

theorem distinctItems_jsonable : ∀ items : List PyValue, distinctItems (jsonableItems items)
  | [] => trivial
  | item :: items => ⟨distinctKeys_jsonable item, distinctItems_jsonable items⟩

theorem distinctEntries_jsonable : ∀ entries : List (Text × PyValue),
    distinctEntries (jsonableEntries entries)
  | [] => trivial
  | (_, value) :: entries => ⟨distinctKeys_jsonable value, distinctEntries_jsonable entries⟩

end

variable {py : Python} {scrubText : Text → Text}

mutual

theorem distinctKeys_scrubValue : ∀ v : Document, v.DistinctKeys →
    (scrubValue py scrubText v).DistinctKeys
  | .null, _ | .bool _, _ | .int _, _ | .float _, _ | .str _, _ | .other _, _ => trivial
  | .list items, h => distinctItems_scrub items h
  | .mapping entries, h => distinctKeys_dictOf (distinctEntries_scrub entries h.2)

theorem distinctItems_scrub : ∀ items : List Document, distinctItems items →
    distinctItems (scrubItems py scrubText items)
  | [], _ => trivial
  | item :: items, h => ⟨distinctKeys_scrubValue item h.1, distinctItems_scrub items h.2⟩

theorem distinctEntries_scrub : ∀ entries : Entries, distinctEntries entries →
    distinctEntries (scrubEntries py scrubText entries)
  | [], _ => trivial
  | (key, value) :: entries, h => by
    refine ⟨?_, distinctEntries_scrub entries h.2⟩
    by_cases hkey : isCredentialKey py key = true
    · rw [if_pos hkey]
      trivial
    · rw [if_neg hkey]
      exact distinctKeys_scrubValue value h.1

end

theorem distinctKeys_setField {key : Text} {value : Document} {fields : Entries}
    (hvalue : value.DistinctKeys) (h : (Document.mapping fields).DistinctKeys) :
    (Document.mapping (setField key value fields)).DistinctKeys := by
  refine ⟨nodup_setField h.1, distinctEntries_iff.mpr fun e he => ?_⟩
  rcases mem_setField he with rfl | hold
  · exact hvalue
  · exact distinctEntries_iff.mp h.2 e hold

theorem distinctKeys_marker (names : List Text) : (marker names).DistinctKeys := by
  have hkeys : ["dropped_fields".toList, "limit_bytes".toList].Nodup := by decide
  refine ⟨hkeys, ?_, trivial, trivial⟩
  show distinctItems ((names.insertionSort (· ≤ ·)).map .str)
  induction names.insertionSort (· ≤ ·) with
  | nil => trivial
  | cons name names ih => exact ⟨trivial, ih⟩

theorem distinctKeys_dropFields {keys : List Text} {out : Entries × List Text}
    (h : (Document.mapping out.1).DistinctKeys) :
    (Document.mapping (dropFields keys out).1).DistinctKeys := by
  induction keys generalizing out with
  | nil => exact h
  | cons key keys ih =>
    obtain ⟨kept, dropped⟩ := out
    unfold dropFields
    split
    · exact h
    · apply ih
      have hsub := List.filter_sublist (l := kept) (p := fun e => e.1 ≠ key)
      exact ⟨h.1.sublist (hsub.map Prod.fst), distinctEntries_iff.mpr fun e he =>
        distinctEntries_iff.mp h.2 e (hsub.subset he)⟩

theorem distinctKeys_capPayload {payload : Entries} (h : (Document.mapping payload).DistinctKeys) :
    (Document.mapping (capPayload payload)).DistinctKeys := by
  unfold capPayload
  split
  · exact h
  · exact distinctKeys_setField (distinctKeys_marker _) (distinctKeys_dropFields h)

/-- No dict of a payload that `record` keeps has a key twice. -/
theorem distinctKeys_sanitizePayload (payload : List (Text × PyValue)) :
    (Document.mapping (sanitizePayload py scrubText payload)).DistinctKeys :=
  distinctKeys_capPayload (distinctKeys_dictOf (distinctEntries_scrub _
    (distinctKeys_dictOf (distinctEntries_jsonable payload)).2))

end DataQ.Audit
