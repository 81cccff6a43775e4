import Mathlib.Data.Char
import Mathlib.Data.List.Dedup
import Mathlib.Data.List.Lex
import Mathlib.Data.List.Sort
import DataQ.Foundations.Registry
import DataQ.Foundations.Text

/-! # Assets

`asset_identity` and `asset_service.upsert_assets`: a table is one asset, found by its namespace
and its name. -/

namespace DataQ.Lineage
set_option autoImplicit false

/-- `str.upper` and `str.lower`. -/
structure Cases where
  upper : Text → Text
  lower : Text → Text

inductive IdentifierEngine
  | snowflake | unityCatalog
  deriving DecidableEq, Repr

def IdentifierEngine.quoteChars : IdentifierEngine → List Char
  | .snowflake => ['\x22']
  | .unityCatalog => ['\x22', '\x60']

/-- `_normalize_part`; `none` where nothing is left between the quotes. -/
def normalizePart (cases : Cases) (engine : IdentifierEngine) (part : Text) : Option Text :=
  let quoted := engine.quoteChars.any fun quote =>
    2 ≤ part.length && part.head? = some quote && part.getLast? = some quote
  if quoted then
    let inner := part.tail.dropLast
    if inner = [] then none else some inner
  else some (match engine with
    | .snowflake => cases.upper part
    | .unityCatalog => cases.lower part)

def dotted (parts : List Text) : Text := ['.'].intercalate parts

/-- `format_snowflake_name`, `format_unity_catalog_name`. -/
def formatName (cases : Cases) (engine : IdentifierEngine) (database schema table : Text) :
    Option Text :=
  ([database, schema, table].mapM (normalizePart cases engine)).map dotted

structure Asset where
  id : ℕ
  assetNamespace : Text
  name : Text
  env : Option Text
  connectionId : Option ℕ
  lastSeen : ℕ
  deriving DecidableEq, Repr

/-- What identifies an asset. -/
abbrev AssetKey := Text × Text

def Asset.key (a : Asset) : AssetKey := (a.assetNamespace, a.name)

structure AssetRow where
  assetNamespace : Text
  name : Text
  env : Option Text
  connectionId : Option ℕ
  deriving DecidableEq, Repr

def AssetRow.key (r : AssetRow) : AssetKey := (r.assetNamespace, r.name)

def conflictSet (preserveProvenance : Bool) (now : ℕ) (r : AssetRow) (a : Asset) : Asset :=
  if preserveProvenance then
    { a with
      lastSeen := now
      env := a.env.or r.env
      connectionId := a.connectionId.or r.connectionId }
  else { a with lastSeen := now, env := r.env, connectionId := r.connectionId }

def upsertAsset (preserveProvenance : Bool) (now : ℕ) (assets : List Asset) (r : AssetRow) :
    List Asset :=
  Registry.upsert Asset.key r.key (conflictSet preserveProvenance now r)
    ⟨Registry.freshId Asset.id assets, r.assetNamespace, r.name, r.env, r.connectionId, now⟩ assets

/-- `upsert_assets`, whose rows are of different assets. -/
def upsertAssets (preserveProvenance : Bool) (now : ℕ) (rows : List AssetRow)
    (assets : List Asset) : List Asset :=
  rows.foldl (upsertAsset preserveProvenance now) assets

/-- An entry of the dict that `upsert_assets` returns. -/
def assetId (assets : List Asset) (key : AssetKey) : Option ℕ :=
  Registry.idOf Asset.key Asset.id assets key

theorem conflictSet_same (preserveProvenance : Bool) (now : ℕ) (r : AssetRow) (a : Asset) :
    (conflictSet preserveProvenance now r a).key = a.key ∧
      (conflictSet preserveProvenance now r a).id = a.id := by
  unfold conflictSet
  split <;> exact ⟨rfl, rfl⟩

section Upserts

variable {preserveProvenance : Bool} {now : ℕ}

/-- The columns of an asset's key identify it. -/
def Identified (assets : List Asset) : Prop := Registry.Named Asset.key Asset.id assets

theorem upsertAsset_identified {assets : List Asset} (h : Identified assets) (r : AssetRow) :
    Identified (upsertAsset preserveProvenance now assets r) :=
  Registry.Named.upsert h (fun a ha => (conflictSet_same _ _ r a).1.trans ha)
    (fun a => (conflictSet_same _ _ r a).2) rfl

theorem assetId_upsertAsset {assets : List Asset} (r : AssetRow) {key : AssetKey} {i : ℕ}
    (h : assetId assets key = some i) :
    assetId (upsertAsset preserveProvenance now assets r) key = some i :=
  Registry.idOf_upsert (fun a ha => (conflictSet_same _ _ r a).1.trans ha)
    (fun a => (conflictSet_same _ _ r a).2) h

theorem assetId_upsertAsset_self {assets : List Asset} (r : AssetRow) :
    (assetId (upsertAsset preserveProvenance now assets r) r.key).isSome :=
  Registry.idOf_isSome_iff.mpr
    (Registry.exists_mem_upsert (fun a ha => (conflictSet_same _ _ r a).1.trans ha) rfl)

theorem upsertAssets_identified {rows : List AssetRow} {assets : List Asset}
    (h : Identified assets) : Identified (upsertAssets preserveProvenance now rows assets) := by
  induction rows generalizing assets with
  | nil => exact h
  | cons r rows ih => exact ih (upsertAsset_identified h r)

theorem assetId_upsertAssets {rows : List AssetRow} {assets : List Asset} {key : AssetKey} {i : ℕ}
    (h : assetId assets key = some i) :
    assetId (upsertAssets preserveProvenance now rows assets) key = some i := by
  induction rows generalizing assets with
  | nil => exact h
  | cons r rows ih => exact ih (assetId_upsertAsset r h)

theorem assetId_upsertAssets_of_mem {rows : List AssetRow} {assets : List Asset} {r : AssetRow}
    (h : r ∈ rows) : (assetId (upsertAssets preserveProvenance now rows assets) r.key).isSome := by
  induction rows generalizing assets with
  | nil => cases h
  | cons first rows ih =>
    rcases List.mem_cons.mp h with rfl | h
    · have hfirst : (assetId (upsertAsset preserveProvenance now assets r) r.key).isSome :=
        assetId_upsertAsset_self r
      obtain ⟨i, hi⟩ := Option.isSome_iff_exists.mp hfirst
      show (assetId (upsertAssets preserveProvenance now rows
        (upsertAsset preserveProvenance now assets r)) r.key).isSome
      rw [assetId_upsertAssets hi]
      rfl
    · exact ih h

end Upserts

end DataQ.Lineage
