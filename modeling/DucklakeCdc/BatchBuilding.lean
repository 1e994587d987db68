import Mathlib.Data.List.Dedup
import Mathlib.Data.List.Sort
import Mathlib.Tactic.Common

/-!
Rows of the listen and read calls and the batches the consumers make of them
(`types.py`, `consumers/dml.py`, `consumers/ddl.py`). The four builders differ in the
row they read and the item they keep; bounds, identity and order are one computation.
Times are microseconds since the epoch, UTC.
-/
namespace CdcBatch

structure Row (ι : Type) where
  startSnapshot : Option Int
  endSnapshot : Option Int
  snapshotId : Int
  item : ι
  deriving DecidableEq, Repr

def Row.first {ι : Type} (row : Row ι) : Int := row.startSnapshot.getD row.snapshotId
def Row.last {ι : Type} (row : Row ι) : Int := row.endSnapshot.getD row.snapshotId

/-- `connection` is the one the batch's transaction runs on. -/
structure Batch (ι : Type) where
  consumerName : String
  batchId : String
  startSnapshot : Int
  endSnapshot : Int
  snapshotIds : List Int
  receivedAt : Int
  items : List ι
  connection : Option Nat
  deriving DecidableEq, Repr

def deriveBatchId (consumerName : String) (startSnapshot endSnapshot : Int) : String :=
  s!"{consumerName}/{startSnapshot}-{endSnapshot}"

/-- Every builder; `none` is the `ValueError` of `min` on no rows. -/
def buildBatch {ι : Type} (consumerName : String) (connection : Option Nat) (receivedAt : Int)
    (rows : List (Row ι)) : Option (Batch ι) := do
  let start ← (rows.map Row.first).min?
  let stop ← (rows.map Row.last).max?
  return {
    consumerName
    batchId := deriveBatchId consumerName start stop
    startSnapshot := start
    endSnapshot := stop
    snapshotIds := (rows.map Row.snapshotId).dedup.insertionSort (· ≤ ·)
    receivedAt
    items := rows.map Row.item
    connection }

inductive ChangeType where
  | all | insert | updatePreimage | updatePostimage | delete
  deriving DecidableEq, Repr

inductive DdlEventKind where
  | created | altered | dropped
  deriving DecidableEq, Repr

inductive DdlObjectKind where
  | schema | table | view
  deriving DecidableEq, Repr

def ChangeType.value : ChangeType → String
  | .all => "*"
  | .insert => "insert"
  | .updatePreimage => "update_preimage"
  | .updatePostimage => "update_postimage"
  | .delete => "delete"

def DdlEventKind.members : List DdlEventKind := [.created,.altered,.dropped]
def DdlObjectKind.members : List DdlObjectKind := [.schema,.table,.view]

def DdlEventKind.value : DdlEventKind → String
  | .created => "created"
  | .altered => "altered"
  | .dropped => "dropped"

def DdlObjectKind.value : DdlObjectKind → String
  | .schema => "schema"
  | .table => "table"
  | .view => "view"

structure ChangeRow (V : Type) where
  startSnapshot : Option Int
  endSnapshot : Option Int
  snapshotId : Int
  changeType : ChangeType
  rowid : Option Int
  tableId : Option Int
  tableName : Option String
  snapshotTime : Option Int
  values : List (String × V)

structure Change (V : Type) where
  kind : ChangeType
  snapshotId : Int
  table : Option String
  tableId : Option Int
  rowid : Option Int
  snapshotTime : Option Int
  values : List (String × V)

def ChangeRow.toRow {V : Type} (row : ChangeRow V) : Row (Change V) where
  startSnapshot := row.startSnapshot
  endSnapshot := row.endSnapshot
  snapshotId := row.snapshotId
  item := {
    kind := row.changeType
    snapshotId := row.snapshotId
    table := row.tableName
    tableId := row.tableId
    rowid := row.rowid
    snapshotTime := row.snapshotTime
    values := row.values }

structure DMLTickRow where
  startSnapshot : Option Int
  endSnapshot : Option Int
  snapshotId : Int
  snapshotTime : Option Int
  schemaVersion : Int
  tableIds : List Int

structure DMLTick where
  snapshotId : Int
  snapshotTime : Option Int
  schemaVersion : Int
  tableIds : List Int

def DMLTickRow.toRow (row : DMLTickRow) : Row DMLTick where
  startSnapshot := row.startSnapshot
  endSnapshot := row.endSnapshot
  snapshotId := row.snapshotId
  item := ⟨row.snapshotId,row.snapshotTime,row.schemaVersion,row.tableIds⟩

structure SchemaChangeRow where
  snapshotId : Int
  snapshotTime : Option Int
  eventKind : DdlEventKind
  objectKind : DdlObjectKind
  schemaId : Option Int
  schemaName : Option String
  objectId : Option Int
  objectName : Option String
  details : Option String
  startSnapshot : Option Int
  endSnapshot : Option Int

structure SchemaChange where
  eventKind : DdlEventKind
  objectKind : DdlObjectKind
  snapshotId : Int
  snapshotTime : Option Int
  schemaId : Option Int
  schemaName : Option String
  objectId : Option Int
  objectName : Option String
  details : Option String

def SchemaChangeRow.toRow (row : SchemaChangeRow) : Row SchemaChange where
  startSnapshot := row.startSnapshot
  endSnapshot := row.endSnapshot
  snapshotId := row.snapshotId
  item := {
    eventKind := row.eventKind
    objectKind := row.objectKind
    snapshotId := row.snapshotId
    snapshotTime := row.snapshotTime
    schemaId := row.schemaId
    schemaName := row.schemaName
    objectId := row.objectId
    objectName := row.objectName
    details := row.details }

structure DDLTickRow where
  startSnapshot : Option Int
  endSnapshot : Option Int
  snapshotId : Int
  snapshotTime : Option Int
  schemaVersion : Int

structure DDLTick where
  snapshotId : Int
  snapshotTime : Option Int
  schemaVersion : Int

def DDLTickRow.toRow (row : DDLTickRow) : Row DDLTick where
  startSnapshot := row.startSnapshot
  endSnapshot := row.endSnapshot
  snapshotId := row.snapshotId
  item := ⟨row.snapshotId,row.snapshotTime,row.schemaVersion⟩

def dmlChangeBatch {V : Type} (name : String) (connection : Option Nat) (now : Int)
    (rows : List (ChangeRow V)) : Option (Batch (Change V)) :=
  buildBatch name connection now (rows.map ChangeRow.toRow)

def dmlTickBatch (name : String) (connection : Option Nat) (now : Int)
    (rows : List DMLTickRow) : Option (Batch DMLTick) :=
  buildBatch name connection now (rows.map DMLTickRow.toRow)

def ddlChangeBatch (name : String) (connection : Option Nat) (now : Int)
    (rows : List SchemaChangeRow) : Option (Batch SchemaChange) :=
  buildBatch name connection now (rows.map SchemaChangeRow.toRow)

def ddlTickBatch (name : String) (connection : Option Nat) (now : Int)
    (rows : List DDLTickRow) : Option (Batch DDLTick) :=
  buildBatch name connection now (rows.map DDLTickRow.toRow)

variable {ι : Type}

theorem min_of_constant {xs : List Int} {a : Int} (nonempty : xs ≠ []) (same : ∀ x ∈ xs, x = a) :
    xs.min? = some a := by
  obtain ⟨x,member⟩ := List.exists_mem_of_ne_nil xs nonempty
  rw [List.min?_eq_some_iff]
  refine ⟨same x member ▸ member,?_⟩
  intro b hb
  rw [same b hb]

theorem max_of_constant {xs : List Int} {a : Int} (nonempty : xs ≠ []) (same : ∀ x ∈ xs, x = a) :
    xs.max? = some a := by
  obtain ⟨x,member⟩ := List.exists_mem_of_ne_nil xs nonempty
  rw [List.max?_eq_some_iff]
  refine ⟨same x member ▸ member,?_⟩
  intro b hb
  rw [same b hb]

theorem build_eq {name : String} {conn : Option Nat} {now lo hi : Int} {rows : List (Row ι)}
    (lowest : (rows.map Row.first).min? = some lo) (highest : (rows.map Row.last).max? = some hi) :
    buildBatch name conn now rows = some {
      consumerName := name
      batchId := deriveBatchId name lo hi
      startSnapshot := lo
      endSnapshot := hi
      snapshotIds := (rows.map Row.snapshotId).dedup.insertionSort (· ≤ ·)
      receivedAt := now
      items := rows.map Row.item
      connection := conn } := by
  simp only [buildBatch, lowest, highest, Option.bind_eq_bind, Option.bind_some]
  rfl

theorem build_of_window {name : String} {conn : Option Nat} {now : Int} {rows : List (Row ι)}
    {lo hi : Int} (nonempty : rows ≠ []) (first : ∀ row ∈ rows, row.first = lo)
    (last : ∀ row ∈ rows, row.last = hi) :
    ∃ batch, buildBatch name conn now rows = some batch ∧ batch.startSnapshot = lo ∧
      batch.endSnapshot = hi ∧ batch.items = rows.map Row.item ∧ batch.connection = conn := by
  have lowest : (rows.map Row.first).min? = some lo :=
    min_of_constant (by simpa using nonempty) (by simpa using first)
  have highest : (rows.map Row.last).max? = some hi :=
    max_of_constant (by simpa using nonempty) (by simpa using last)
  exact ⟨_,build_eq lowest highest,rfl,rfl,rfl,rfl⟩

theorem bounds_exist {rows : List (Row ι)} (some_ : rows ≠ []) :
    ∃ lo hi, (rows.map Row.first).min? = some lo ∧ (rows.map Row.last).max? = some hi := by
  obtain ⟨lo,lowest⟩ : ∃ lo, (rows.map Row.first).min? = some lo :=
    Option.isSome_iff_exists.mp (by simpa [List.isSome_min?_iff] using some_)
  obtain ⟨hi,highest⟩ : ∃ hi, (rows.map Row.last).max? = some hi :=
    Option.isSome_iff_exists.mp (by simpa [List.isSome_max?_iff] using some_)
  exact ⟨lo,hi,lowest,highest⟩

theorem build_ne_none (name : String) (conn : Option Nat) (wall : Int) {rows : List (Row ι)}
    (some_ : rows ≠ []) : ∃ batch, buildBatch name conn wall rows = some batch := by
  obtain ⟨lo,hi,lowest,highest⟩ := bounds_exist some_
  exact ⟨_,build_eq lowest highest⟩

theorem min_perm {xs ys : List Int} (perm : xs.Perm ys) : xs.min? = ys.min? := by
  cases least : xs.min? with
  | none =>
    rw [List.min?_eq_none_iff] at least
    subst least
    rw [← perm.nil_eq]
    rfl
  | some a =>
    obtain ⟨member,below⟩ := List.min?_eq_some_iff.mp least
    symm
    rw [List.min?_eq_some_iff]
    exact ⟨perm.mem_iff.mp member,fun b h => below b (perm.mem_iff.mpr h)⟩

theorem max_perm {xs ys : List Int} (perm : xs.Perm ys) : xs.max? = ys.max? := by
  cases greatest : xs.max? with
  | none =>
    rw [List.max?_eq_none_iff] at greatest
    subst greatest
    rw [← perm.nil_eq]
    rfl
  | some a =>
    obtain ⟨member,above⟩ := List.max?_eq_some_iff.mp greatest
    symm
    rw [List.max?_eq_some_iff]
    exact ⟨perm.mem_iff.mp member,fun b h => above b (perm.mem_iff.mpr h)⟩

def sortedSet (xs : List Int) : List Int := xs.dedup.insertionSort (· ≤ ·)

theorem mem_sortedSet {xs : List Int} {n : Int} : n ∈ sortedSet xs ↔ n ∈ xs := by
  rw [sortedSet, List.mem_insertionSort, List.mem_dedup]

theorem sortedSet_increasing (xs : List Int) : (sortedSet xs).Pairwise (· < ·) := by
  have distinct : (sortedSet xs).Nodup :=
    (List.perm_insertionSort _ _).nodup_iff.mpr (List.nodup_dedup xs)
  have ordered : (sortedSet xs).Pairwise (· ≤ ·) := List.pairwise_insertionSort _ _
  exact (ordered.and distinct).imp fun h => lt_of_le_of_ne h.1 h.2

theorem sortedSet_perm {xs ys : List Int} (perm : xs.Perm ys) : sortedSet xs = sortedSet ys := by
  have sorted : ∀ zs : List Int, (sortedSet zs).Pairwise (· ≤ ·) :=
    fun zs => List.pairwise_insertionSort _ zs.dedup
  have same : (sortedSet xs).Perm (sortedSet ys) :=
    (List.perm_insertionSort _ _).trans
      (perm.dedup.trans (List.perm_insertionSort _ _).symm)
  exact same.eq_of_pairwise' (sorted xs) (sorted ys)

/-- The bounds a row carries, where it carries them, contain its snapshot. -/
structure Within (start stop : Option Int) (id : Int) : Prop where
  above : ∀ lo, start = some lo → lo ≤ id
  below : ∀ hi, stop = some hi → id ≤ hi

theorem getD_le {start stop : Option Int} {id : Int} (h : Within start stop id) :
    start.getD id ≤ id := by
  cases given : start with
  | none => exact le_refl _
  | some lo => exact h.above lo given

theorem le_getD {start stop : Option Int} {id : Int} (h : Within start stop id) :
    id ≤ stop.getD id := by
  cases given : stop with
  | none => exact le_refl _
  | some hi => exact h.below hi given

section
variable {ρ : Type} (start stop : ρ → Option Int) (id : ρ → Int) (item : ρ → ι)

/-- `b` against the rows it was built from, by the fields the builder reads off a row. -/
structure Consistent (rows : List ρ) (b : Batch ι) : Prop where
  bounds : ∀ n ∈ b.snapshotIds, b.startSnapshot ≤ n ∧ n ≤ b.endSnapshot
  increasing : b.snapshotIds.Pairwise (· < ·)
  ids : ∀ n, n ∈ b.snapshotIds ↔ ∃ row ∈ rows, id row = n
  items : b.items = rows.map item
  least : (rows.map fun row => (start row).getD (id row)).min? = some b.startSnapshot
  greatest : (rows.map fun row => (stop row).getD (id row)).max? = some b.endSnapshot
  below : ∀ row ∈ rows, id row ≤ b.endSnapshot

structure SameIdentity (b b' : Batch ι) : Prop where
  batchId : b.batchId = b'.batchId
  start : b.startSnapshot = b'.startSnapshot
  stop : b.endSnapshot = b'.endSnapshot
  ids : b.snapshotIds = b'.snapshotIds

/-- What a builder makes of its rows, and that their order does not matter to the cursor. -/
def SoundBuilder (build : String → Option Nat → Int → List ρ → Option (Batch ι)) : Prop :=
  ∀ name conn now rows, rows ≠ [] → (∀ row ∈ rows, Within (start row) (stop row) (id row)) →
    ∃ b, build name conn now rows = some b ∧ Consistent start stop id item rows b ∧
      ∀ rows' conn' now', rows.Perm rows' →
        ∃ b', build name conn' now' rows' = some b' ∧ SameIdentity b b'

theorem sound_of_buildBatch :
    SoundBuilder start stop id item fun name conn now rows => buildBatch name conn now
      (rows.map fun row => ⟨start row,stop row,id row,item row⟩) := by
  intro name conn now rows some_ windows
  let toRow : ρ → Row ι := fun row => ⟨start row,stop row,id row,item row⟩
  obtain ⟨lo,hi,lowest,highest⟩ := bounds_exist (show rows.map toRow ≠ [] by simpa using some_)
  have least := (List.min?_eq_some_iff.mp lowest).2
  have greatest := (List.max?_eq_some_iff.mp highest).2
  have inside : ∀ row ∈ rows, lo ≤ id row ∧ id row ≤ hi := by
    intro row member
    have here : toRow row ∈ rows.map toRow := List.mem_map_of_mem member
    have starts := least (toRow row).first (List.mem_map_of_mem here)
    have stops := greatest (toRow row).last (List.mem_map_of_mem here)
    exact ⟨starts.trans (getD_le (windows row member)),(le_getD (windows row member)).trans stops⟩
  have ids : ∀ n, n ∈ sortedSet ((rows.map toRow).map Row.snapshotId) ↔ ∃ row ∈ rows, id row = n := by
    intro n
    rw [mem_sortedSet, List.map_map, List.mem_map]
    rfl
  refine ⟨_,build_eq lowest highest,?_,?_⟩
  · constructor
    case bounds =>
      intro n member
      obtain ⟨row,given,rfl⟩ := (ids n).mp member
      exact inside row given
    case increasing => exact sortedSet_increasing _
    case ids => exact ids
    case items => exact List.map_map
    case least =>
      rw [List.map_map] at lowest
      exact lowest
    case greatest =>
      rw [List.map_map] at highest
      exact highest
    case below => exact fun row member => (inside row member).2
  · intro rows' conn' now' perm
    have perm' := perm.map toRow
    have lowest' := (min_perm (perm'.map Row.first)).symm.trans lowest
    have highest' := (max_perm (perm'.map Row.last)).symm.trans highest
    exact ⟨_,build_eq lowest' highest',rfl,rfl,rfl,sortedSet_perm (perm'.map Row.snapshotId)⟩

end

/-- All four builders make consistent batches, whatever the order of their rows: each row is
    kept as its own fields have it. -/
theorem builders_sound {V : Type} :
    SoundBuilder (ρ := ChangeRow V) (·.startSnapshot) (·.endSnapshot) (·.snapshotId)
        (fun row : ChangeRow V => {
          kind := row.changeType
          snapshotId := row.snapshotId
          table := row.tableName
          tableId := row.tableId
          rowid := row.rowid
          snapshotTime := row.snapshotTime
          values := row.values : Change V })
        dmlChangeBatch ∧
      SoundBuilder (ρ := DMLTickRow) (·.startSnapshot) (·.endSnapshot) (·.snapshotId)
        (fun row => ⟨row.snapshotId,row.snapshotTime,row.schemaVersion,row.tableIds⟩)
        dmlTickBatch ∧
      SoundBuilder (ρ := SchemaChangeRow) (·.startSnapshot) (·.endSnapshot) (·.snapshotId)
        (fun row => {
          eventKind := row.eventKind
          objectKind := row.objectKind
          snapshotId := row.snapshotId
          snapshotTime := row.snapshotTime
          schemaId := row.schemaId
          schemaName := row.schemaName
          objectId := row.objectId
          objectName := row.objectName
          details := row.details })
        ddlChangeBatch ∧
      SoundBuilder (ρ := DDLTickRow) (·.startSnapshot) (·.endSnapshot) (·.snapshotId)
        (fun row => ⟨row.snapshotId,row.snapshotTime,row.schemaVersion⟩)
        ddlTickBatch :=
  ⟨sound_of_buildBatch _ _ _ _,sound_of_buildBatch _ _ _ _,sound_of_buildBatch _ _ _ _,
    sound_of_buildBatch _ _ _ _⟩

end CdcBatch
