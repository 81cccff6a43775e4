import DataQ.Comparison.Frames
import DataQ.Foundations.Documents
import DataQ.Foundations.Fallible
import DataQ.Foundations.OuterMerge
import DataQ.Foundations.Winners

/-! # The alignment of two frames

`_align`: the keys of a check name a column of each side, and the rows of the two sides are paired
by what is in these. -/

namespace DataQ.Comparison
set_option autoImplicit false

/-- An entry of `config.keys`. -/
inductive Key
  | plain (name : Text)
  | mapped (source target : Text)
  deriving DecidableEq

structure KeyPair where
  source : Text
  target : Text
  deriving DecidableEq

def Key.pair : Key → KeyPair
  | .plain name => ⟨name, name⟩
  | .mapped source target => ⟨source, target⟩

/-- `normalize_keys`. -/
def normalizeKeys (keys : List Key) : List KeyPair := keys.map Key.pair

inductive Side
  | source
  | target
  deriving DecidableEq

def Side.text : Side → Text
  | .source => "source".toList
  | .target => "target".toList

/-- Why two frames are not compared; the last is an exception of pandas itself. -/
inductive Refusal
  | missingColumns (side : Side) (missing : List Text)
  | keyCollisions (collisions : List Text)
  | reservedNames (reserved : List Text)
  | shadowedKeys (collisions : List Text)
  | nullKeys (side : Side) (nullKeyCounts : List (Text × ℕ))
  | duplicateKeys (side : Side)
  | nothingCompared (columnsOnlyInSource : List Text)
  | uncaught
  deriving DecidableEq

def Refusal.message : Refusal → Text
  | .missingColumns side missing =>
    side.text ++ " side is missing configured column(s): ".toList ++ commas missing
  | .keyCollisions collisions =>
    "target side already has column(s) named like the mapped source key(s): ".toList ++
      commas collisions ++ " — rename or drop them".toList
  | .reservedNames reserved =>
    "column name(s) reserved by the comparison engine: ".toList ++ commas reserved ++
      " — rename or exclude them".toList
  | .shadowedKeys collisions =>
    "key column name(s) collide with a compared column's sample suffix (".toList ++
      commas collisions ++ ") — sample rows would overwrite the key; rename ".toList ++
      "the key or exclude the column via config.columns".toList
  | .nullKeys side _ =>
    "join key(s) contain NULLs on the ".toList ++ side.text ++
      " side — a NULL key cannot pair rows ".toList ++
      "(filter them upstream or pick complete key columns)".toList
  | .duplicateKeys side =>
    "join keys are not unique on the ".toList ++ side.text ++
      " side — row pairing would be undefined, so the comparison refuses ".toList ++
      "(dedupe upstream or add key columns)".toList
  | .nothingCompared _ =>
    "column-grain comparison needs at least one shared non-key column ".toList ++
      "(or an explicit config.columns list)".toList
  | .uncaught => []

/-! ## Columns -/

section Columns
variable {S : ℕ → Type} {m n : ℕ}

/-- The columns of a frame of so many rows. -/
abbrev Columns (S : ℕ → Type) (n : ℕ) := List (Text × S n)

structure Frame (S : ℕ → Type) where
  rows : ℕ
  columns : Columns S rows

def names (columns : Columns S n) : List Text := columns.map Prod.fst

/-- `df[name]`: a series only where one column is named so. -/
def column? (columns : Columns S n) (name : Text) : Option (S n) :=
  match columns.filter fun column => column.1 = name with
  | [column] => some column.2
  | _ => none

/-- `_require_columns`. -/
def requireColumns (columns : Columns S n) (wanted : List Text) (side : Side) :
    Except Refusal Unit :=
  let missing := wanted.filter fun name => name ∉ names columns
  if missing = [] then .ok () else .error (.missingColumns side (missing.take 10))

/-- `rename_map`. -/
def renameMap (keys : List KeyPair) : List (Text × Text) :=
  Winners.dictOf KeyPair.target KeyPair.source (keys.filter fun key => key.target ≠ key.source)

def renamed (keys : List KeyPair) (name : Text) : Text :=
  ((renameMap keys).lookup name).getD name

/-- `df.rename(columns=rename_map)`. -/
def rename (keys : List KeyPair) (columns : Columns S n) : Columns S n :=
  columns.map fun column => (renamed keys column.1, column.2)

def keyNames (keys : List KeyPair) : List Text := keys.map KeyPair.source

/-- The names that are looked at for the alignment itself. -/
def reservedNames : List Text :=
  ["__dataq_pos".toList, "__dataq_pos_src".toList, "__dataq_pos_tgt".toList]

/-- Names that `merge(indicator=True)` does not take. -/
def indicatorNames : List Text :=
  ["_left_indicator".toList, "_merge".toList, "_right_indicator".toList]

def suffixed (name : Text) (suffix : String) : Text := name ++ suffix.toList

/-- The columns of the alignment, by name. -/
structure ColumnPlan where
  compared : List Text
  onlySource : List Text
  onlyTarget : List Text

/-- `sorted(set(names) - set(less))`. -/
def leftOver (names less : List Text) : List Text :=
  ((names.filter fun name => name ∉ less).dedup).insertionSort (· ≤ ·)

/-- The target has none of the names that its keys are renamed to. -/
def rejectCollisions (keys : List KeyPair) (target : Columns S n) : Except Refusal Unit :=
  let collisions := ((renameMap keys).map Prod.snd).filter fun name => name ∈ names target
  if collisions = [] then .ok () else .error (.keyCollisions (collisions.take 10))

/-- The columns that are asked for, or else those that both sides have; no keys. -/
def comparedColumns (source : Columns S m) (target : Columns S n) (keyCols : List Text)
    (columns : Option (List Text)) : Except Refusal (List Text) :=
  let wanted := columns.getD []
  if wanted ≠ [] then do
    requireColumns source wanted .source
    requireColumns target wanted .target
    pure (wanted.filter fun name => name ∉ keyCols)
  else
    let sourceValueCols := (names source).filter fun name => name ∉ keyCols
    let targetValueCols := (names target).filter fun name => name ∉ keyCols
    pure (sourceValueCols.filter fun name => name ∈ targetValueCols)

def rejectReserved (keyCols compared : List Text) : Except Refusal Unit :=
  let reserved := reservedNames.filter fun name => name ∈ keyCols ++ compared
  if reserved = [] then .ok () else .error (.reservedNames reserved)

def rejectShadowed (keyCols compared : List Text) : Except Refusal Unit :=
  let suffixes := compared.flatMap fun name => [suffixed name "_src", suffixed name "_tgt"]
  let shadowed := leftOver (keyCols.filter fun name => name ∈ suffixes) []
  if shadowed = [] then .ok () else .error (.shadowedKeys shadowed)

/-- The part of `_align` before the series are looked at. -/
def planColumns (source : Columns S m) (target : Columns S n) (keys : List KeyPair)
    (columns : Option (List Text)) : Except Refusal ColumnPlan := do
  requireColumns source (keyNames keys) .source
  requireColumns target (keys.map KeyPair.target) .target
  rejectCollisions keys target
  let compared ← comparedColumns source (rename keys target) (keyNames keys) columns
  rejectReserved (keyNames keys) compared
  rejectShadowed (keyNames keys) compared
  pure ⟨compared, leftOver (names source) (compared ++ keyNames keys),
    leftOver (names (rename keys target)) (compared ++ keyNames keys)⟩

/-! ## Rows -/

/-- A column of both sides, under its name. -/
abbrev Paired (m n : ℕ) := Text × NormalizedPair m n

def normalizeColumn (pd : Pandas S) (source : Columns S m) (target : Columns S n) (name : Text) :
    Except Refusal (Paired m n) :=
  match column? source name, column? target name with
  | some s, some t => .ok (name, normalizePair pd s t)
  | _, _ => .error .uncaught

/-- The key columns of a side, as strings. -/
abbrev KeyFrame (n : ℕ) := List (Text × (Fin n → Option Text))

def sourceKeys (keys : List (Paired m n)) : KeyFrame m :=
  keys.map fun column => (column.1, column.2.sourceStr)

def targetKeys (keys : List (Paired m n)) : KeyFrame n :=
  keys.map fun column => (column.1, column.2.targetStr)

def keyAt (frame : KeyFrame n) (i : Fin n) : List (Option Text) :=
  frame.map fun column => column.2 i

/-- `_reject_null_keys`. -/
def rejectNullKeys (frame : KeyFrame n) (side : Side) : Except Refusal Unit :=
  let counts := frame.map fun column =>
    (column.1, (List.finRange n).countP fun i => (column.2 i).isNone)
  let nulls := counts.filter fun count => count.2 ≠ 0
  if nulls = [] then .ok () else .error (.nullKeys side nulls)

/-- `_reject_duplicate_keys`. -/
def rejectDuplicateKeys (frame : KeyFrame n) (side : Side) : Except Refusal Unit :=
  if ((List.finRange n).map (keyAt frame)).Nodup then .ok () else .error (.duplicateKeys side)

/-- Keys have no null in them; they are ordered by their strings. -/
def keyOrdered (a b : List (Option Text)) : Prop :=
  a.map (Option.getD · []) ≤ b.map (Option.getD · [])

instance : DecidableRel keyOrdered := fun a b =>
  inferInstanceAs (Decidable (a.map (Option.getD · []) ≤ b.map (Option.getD · [])))

/-- `_AlignedSides`; the numbers of rows are those of its type. -/
structure Aligned (m n : ℕ) where
  keys : List (Paired m n)
  compared : List (Paired m n)
  onlySourceCols : List Text
  onlyTargetCols : List Text
  both : List (Fin m × Fin n)
  onlySrc : List (Fin m)
  onlyTgt : List (Fin n)

/-- The rest of `_align`. -/
def alignRows (pd : Pandas S) (source : Columns S m) (target : Columns S n) (keyCols : List Text)
    (plan : ColumnPlan) : Except Refusal (Aligned m n) := do
  let keys ← keyCols.mapM (normalizeColumn pd source target)
  let compared ← plan.compared.mapM (normalizeColumn pd source target)
  rejectNullKeys (sourceKeys keys) .source
  rejectNullKeys (targetKeys keys) .target
  rejectDuplicateKeys (sourceKeys keys) .source
  rejectDuplicateKeys (targetKeys keys) .target
  if keyCols = [] ∨ keyCols.any (· ∈ indicatorNames) then throw .uncaught
  let merged := OuterMerge.merge keyOrdered (keyAt (sourceKeys keys)) (keyAt (targetKeys keys))
  pure ⟨keys, compared, plan.onlySource, plan.onlyTarget, OuterMerge.pairs merged,
    OuterMerge.leftOnly merged, OuterMerge.rightOnly merged⟩

/-- `_align`. -/
def align (pd : Pandas S) (source target : Frame S) (keys : List Key)
    (columns : Option (List Text)) : Except Refusal (Aligned source.rows target.rows) := do
  let keys := normalizeKeys keys
  let plan ← planColumns source.columns target.columns keys columns
  alignRows pd source.columns (rename keys target.columns) (keyNames keys) plan

end Columns

end DataQ.Comparison
