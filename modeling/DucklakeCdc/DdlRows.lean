import DucklakeCdc.ChangeRows

/-!
From the rows of `cdc_ddl_changes_listen` or `cdc_ddl_changes_read` to what a sink is told
of each (`SchemaChangeRow.from_row`, `DDLConsumer._build_change_batch`,
`SchemaChange.to_dict`).
-/
namespace CdcDdlRows
open CdcBatch CdcChangeRows OrderedDicts Programs
variable {V : Type}

/-- The driver's values for NULL and for the types of the extension's columns, and what
    Python's conversions make of those. `text` is the string that a value is. -/
structure Driver (V : Type) extends Conversions V where
  null : V
  ofInt : Int → V
  ofStr : String → V
  ofTime : Int → V
  text : V → Option String
  isoformat : Int → String
  isNone_null : isNone null = true
  isNone_ofInt : ∀ n, isNone (ofInt n) = false
  isNone_ofStr : ∀ s, isNone (ofStr s) = false
  isNone_ofTime : ∀ t, isNone (ofTime t) = false
  int_ofInt : ∀ n, int (ofInt n) = some n
  str_ofStr : ∀ s, str (ofStr s) = s
  datetime_ofTime : ∀ t, datetime (ofTime t) = some t
  text_ofStr : ∀ s, text (ofStr s) = some s

section
variable (driver : Driver V)

def enumOf {α : Type} (members : List α) (value : α → String) (cell : Option V) : Option α :=
  (cell.bind driver.text).bind fun text => members.find? fun member => value member = text

def cellOf (row : Dict String V) (key : String) : Option V :=
  given driver.toConversions row key

def fromRow (row : Dict String V) : Option SchemaChangeRow := do
  let snapshotId ← (row.get? "snapshot_id").bind driver.int
  let snapshotTime ← optional driver.datetime (cellOf driver row "snapshot_time")
  let eventKind ← enumOf driver DdlEventKind.members DdlEventKind.value (row.get? "event_kind")
  let objectKind ← enumOf driver DdlObjectKind.members DdlObjectKind.value
    (row.get? "object_kind")
  let schemaId ← optional driver.int (cellOf driver row "schema_id")
  let objectId ← optional driver.int (cellOf driver row "object_id")
  let startSnapshot ← optional driver.int (cellOf driver row "start_snapshot")
  let endSnapshot ← optional driver.int (cellOf driver row "end_snapshot")
  return {
    snapshotId, snapshotTime, eventKind, objectKind, schemaId
    schemaName := optionalStr driver.toConversions (cellOf driver row "schema_name")
    objectId
    objectName := optionalStr driver.toConversions (cellOf driver row "object_name")
    details := optionalStr driver.toConversions (cellOf driver row "details")
    startSnapshot, endSnapshot }

def changeBatch (name : String) (connection : Option Nat) (now : Int)
    (rows : List (Dict String V)) : Option (Batch SchemaChange) := do
  let typed ← rows.mapM (fromRow driver)
  ddlChangeBatch name connection now typed

def shown {α : Type} (of : α → V) (x : Option α) : V := (x.map of).getD driver.null

def toDict (change : SchemaChange) : Dict String V :=
  Dict.ofPairs [
    ("event_kind",driver.ofStr change.eventKind.value),
    ("object_kind",driver.ofStr change.objectKind.value),
    ("snapshot_id",driver.ofInt change.snapshotId),
    ("snapshot_time",shown driver (fun t => driver.ofStr (driver.isoformat t)) change.snapshotTime),
    ("schema_id",shown driver driver.ofInt change.schemaId),
    ("schema_name",shown driver driver.ofStr change.schemaName),
    ("object_id",shown driver driver.ofInt change.objectId),
    ("object_name",shown driver driver.ofStr change.objectName),
    ("details",shown driver driver.ofStr change.details)]

/-- A cell that is missing, NULL or a value of its column's type. -/
def Nullable {α : Type} (of : α → V) (cell : Option V) : Prop :=
  cell = none ∨ cell = some driver.null ∨ ∃ a, cell = some (of a)

def eventKinds : List String := ["created","altered","dropped","renamed"]
def objectKinds : List String := ["schema","table","view"]

/-- A row in the documented vocabulary. -/
structure Documented (row : Dict String V) : Prop where
  snapshotId : ∃ n, row.get? "snapshot_id" = some (driver.ofInt n)
  eventKind : ∃ kind ∈ eventKinds, row.get? "event_kind" = some (driver.ofStr kind)
  objectKind : ∃ kind ∈ objectKinds, row.get? "object_kind" = some (driver.ofStr kind)
  integers : ∀ key ∈ ["schema_id","object_id","start_snapshot","end_snapshot"],
    Nullable driver driver.ofInt (row.get? key)
  texts : ∀ key ∈ ["schema_name","object_name","details"],
    Nullable driver driver.ofStr (row.get? key)
  time : Nullable driver driver.ofTime (row.get? "snapshot_time")

def toldFields : List String :=
  ["event_kind","object_kind","snapshot_id","schema_id","schema_name","object_id","object_name",
    "details"]

/-- The change gives the row's fields back, `None` for a missing one. -/
def GivesBack (row : Dict String V) (change : SchemaChange) : Prop :=
  ∀ key ∈ toldFields, (toDict driver change).get? key = some ((row.get? key).getD driver.null)

def Faithful (name : String) (connection : Option Nat) (now : Int)
    (rows : List (Dict String V)) : Prop :=
  ∃ batch, changeBatch driver name connection now rows = some batch ∧
    List.Forall₂ (GivesBack driver) rows batch.items

end
section
variable {driver : Driver V} {row : Dict String V} {cell : Option V}

theorem optional_nullable {α : Type} {of : α → V} {convert : V → Option α}
    (present : ∀ a, driver.isNone (of a) = false) (converted : ∀ a, convert (of a) = some a)
    (typed : Nullable driver of cell) :
    ∃ x, optional convert (cell.filter fun value => !driver.isNone value) = some x ∧
      shown driver of x = cell.getD driver.null := by
  obtain rfl | rfl | ⟨a,rfl⟩ := typed
  · exact ⟨none,rfl,rfl⟩
  · refine ⟨none,?_,rfl⟩
    rw [Option.filter_some, driver.isNone_null]
    rfl
  · refine ⟨some a,?_,rfl⟩
    rw [Option.filter_some, present a]
    exact congrArg (Option.map some) (converted a)

theorem str_nullable (typed : Nullable driver driver.ofStr cell) :
    shown driver driver.ofStr (optionalStr driver.toConversions
      (cell.filter fun value => !driver.isNone value)) = cell.getD driver.null := by
  obtain rfl | rfl | ⟨s,rfl⟩ := typed
  · rfl
  · rw [Option.filter_some, driver.isNone_null]
    rfl
  · rw [Option.filter_some, driver.isNone_ofStr s]
    exact congrArg driver.ofStr (driver.str_ofStr s)

theorem enumOf_ofStr {α : Type} {members : List α} {value : α → String} {text : String} :
    enumOf driver members value (some (driver.ofStr text)) =
      members.find? fun member => value member = text := by
  rw [enumOf, Option.bind_some, driver.text_ofStr, Option.bind_some]

theorem eventKind_decoded (driver : Driver V) {kind : String} (documented : kind ∈ eventKinds)
    (kept : kind ≠ "renamed") : ∃ member,
      enumOf driver DdlEventKind.members DdlEventKind.value (some (driver.ofStr kind)) =
        some member ∧ member.value = kind := by
  rw [enumOf_ofStr]
  simp only [eventKinds, List.mem_cons, List.not_mem_nil, or_false] at documented
  obtain rfl | rfl | rfl | rfl := documented
  · exact ⟨.created,rfl,rfl⟩
  · exact ⟨.altered,rfl,rfl⟩
  · exact ⟨.dropped,rfl,rfl⟩
  · exact absurd rfl kept

theorem objectKind_decoded (driver : Driver V) {kind : String}
    (documented : kind ∈ objectKinds) : ∃ member,
    enumOf driver DdlObjectKind.members DdlObjectKind.value (some (driver.ofStr kind)) =
      some member ∧ member.value = kind := by
  rw [enumOf_ofStr]
  simp only [objectKinds, List.mem_cons, List.not_mem_nil, or_false] at documented
  obtain rfl | rfl | rfl := documented
  · exact ⟨.schema,rfl,rfl⟩
  · exact ⟨.table,rfl,rfl⟩
  · exact ⟨.view,rfl,rfl⟩

theorem entries_toDict (change : SchemaChange) : (toDict driver change).entries = [
    ("event_kind",driver.ofStr change.eventKind.value),
    ("object_kind",driver.ofStr change.objectKind.value),
    ("snapshot_id",driver.ofInt change.snapshotId),
    ("snapshot_time",shown driver (fun t => driver.ofStr (driver.isoformat t)) change.snapshotTime),
    ("schema_id",shown driver driver.ofInt change.schemaId),
    ("schema_name",shown driver driver.ofStr change.schemaName),
    ("object_id",shown driver driver.ofInt change.objectId),
    ("object_name",shown driver driver.ofStr change.objectName),
    ("details",shown driver driver.ofStr change.details)] :=
  entries_ofPairs (by simp)

theorem givesBack_of_attributes {change : SchemaChange}
    (eventKind : row.get? "event_kind" = some (driver.ofStr change.eventKind.value))
    (objectKind : row.get? "object_kind" = some (driver.ofStr change.objectKind.value))
    (snapshotId : row.get? "snapshot_id" = some (driver.ofInt change.snapshotId))
    (schemaId : shown driver driver.ofInt change.schemaId =
      (row.get? "schema_id").getD driver.null)
    (schemaName : shown driver driver.ofStr change.schemaName =
      (row.get? "schema_name").getD driver.null)
    (objectId : shown driver driver.ofInt change.objectId =
      (row.get? "object_id").getD driver.null)
    (objectName : shown driver driver.ofStr change.objectName =
      (row.get? "object_name").getD driver.null)
    (details : shown driver driver.ofStr change.details =
      (row.get? "details").getD driver.null) : GivesBack driver row change := by
  intro key told
  simp only [toldFields, List.mem_cons, List.not_mem_nil, or_false] at told
  rw [Dict.get?, entries_toDict]
  obtain rfl | rfl | rfl | rfl | rfl | rfl | rfl | rfl := told
  · simp [eventKind]
  · simp [List.lookup_cons, objectKind]
  · simp [List.lookup_cons, snapshotId]
  · simp [List.lookup_cons, schemaId]
  · simp [List.lookup_cons, schemaName]
  · simp [List.lookup_cons, objectId]
  · simp [List.lookup_cons, objectName]
  · simp [List.lookup_cons, details]

theorem fromRow_documented (row_ : Documented driver row)
    (kept : row.get? "event_kind" ≠ some (driver.ofStr "renamed")) :
    ∃ typed, fromRow driver row = some typed ∧ GivesBack driver row typed.toRow.item := by
  obtain ⟨n,snapshotId⟩ := row_.snapshotId
  obtain ⟨kind,documented,eventKind⟩ := row_.eventKind
  obtain ⟨object,documented',objectKind⟩ := row_.objectKind
  have other : kind ≠ "renamed" := fun same => kept (same ▸ eventKind)
  obtain ⟨event,decoded,isKind⟩ := eventKind_decoded driver documented other
  obtain ⟨member,decoded',isObject⟩ := objectKind_decoded driver documented'
  have integer := fun key known =>
    optional_nullable driver.isNone_ofInt driver.int_ofInt (row_.integers key known)
  have text := fun key known => str_nullable (row_.texts key known)
  obtain ⟨schemaId,readSchema,shownSchema⟩ := integer "schema_id" (by decide)
  obtain ⟨objectId,readObject,shownObject⟩ := integer "object_id" (by decide)
  obtain ⟨start,readStart,_⟩ := integer "start_snapshot" (by decide)
  obtain ⟨stop,readStop,_⟩ := integer "end_snapshot" (by decide)
  obtain ⟨time,readTime,_⟩ :=
    optional_nullable driver.isNone_ofTime driver.datetime_ofTime row_.time
  refine ⟨_,by
    unfold fromRow cellOf given
    rw [snapshotId, eventKind, objectKind, decoded, decoded', readSchema, readObject, readStart,
      readStop, readTime, Option.bind_some, driver.int_ofInt]
    rfl,?_⟩
  apply givesBack_of_attributes
  · rw [eventKind, ← isKind]
    rfl
  · rw [objectKind, ← isObject]
    rfl
  · rw [snapshotId]
    rfl
  · exact shownSchema
  · exact text "schema_name" (by decide)
  · exact shownObject
  · exact text "object_name" (by decide)
  · exact text "details" (by decide)

theorem fromRow_renamed (renamed : row.get? "event_kind" = some (driver.ofStr "renamed")) :
    fromRow driver row = none := by
  have missing : enumOf driver DdlEventKind.members DdlEventKind.value
      (some (driver.ofStr "renamed")) = none := by
    rw [enumOf_ofStr]
    rfl
  rw [Option.eq_none_iff_forall_ne_some]
  intro typed decoded
  simp only [fromRow, renamed, missing, Option.bind_eq_bind, Option.bind_eq_some_iff] at decoded
  obtain ⟨_,_,_,_,_,impossible,_⟩ := decoded
  cases impossible

theorem changeBatch_eq_some {name : String} {connection : Option Nat} {now : Int}
    {rows : List (Dict String V)} {typed : List SchemaChangeRow}
    (decoded : rows.mapM (fromRow driver) = some typed) (some_ : rows ≠ []) :
    ∃ batch, changeBatch driver name connection now rows = some batch ∧
      batch.items = typed.map fun row => row.toRow.item := by
  have rest : typed.map SchemaChangeRow.toRow ≠ [] := by
    intro empty
    rw [List.map_eq_nil_iff] at empty
    rw [empty] at decoded
    exact some_ (List.length_eq_zero_iff.mp (length_of_mapM decoded).symm)
  obtain ⟨batch,built⟩ := build_ne_none name connection now rest
  refine ⟨batch,?_,?_⟩
  · rw [changeBatch, decoded]
    exact built
  · rw [(items_of_build built).1, List.map_map]
    rfl

/-- Documented rows become a batch that gives them back exactly if none is a rename. -/
theorem documented_rows_decoded_iff (driver : Driver V) (name : String)
    (connection : Option Nat) (now : Int) (rows : List (Dict String V)) (some_ : rows ≠ [])
    (documented : ∀ row ∈ rows, Documented driver row) :
    Faithful driver name connection now rows ↔
      ∀ row ∈ rows, row.get? "event_kind" ≠ some (driver.ofStr "renamed") := by
  constructor
  · intro faithful row member renamed
    obtain ⟨batch,built,_⟩ := faithful
    rw [changeBatch, Option.bind_eq_bind, Option.bind_eq_some_iff] at built
    obtain ⟨typed,decoded,_⟩ := built
    obtain ⟨item,there⟩ := exists_of_forall₂ (mapM_eq_some_iff.mp decoded) member
    rw [fromRow_renamed renamed] at there
    cases there
  · intro kept
    obtain ⟨typed,each⟩ := exists_forall₂ fun row member =>
      fromRow_documented (documented row member) (kept row member)
    have decoded : rows.mapM (fromRow driver) = some typed :=
      mapM_eq_some_iff.mpr (each.imp fun _ _ both => both.1)
    obtain ⟨batch,built,items⟩ := changeBatch_eq_some decoded some_
    refine ⟨batch,built,?_⟩
    rw [items, List.forall₂_map_right_iff]
    exact each.imp fun _ _ both => both.2

end

/-! Events of the table `orders` and of others -/

def plainDriver : Driver Value where
  toConversions := plainConversions
  null := .null
  ofInt := .int
  ofStr := .text
  ofTime := .time
  text
    | .text s => some s
    | _ => none
  isoformat t := toString t
  isNone_null := rfl
  isNone_ofInt _ := rfl
  isNone_ofStr _ := rfl
  isNone_ofTime _ := rfl
  int_ofInt _ := rfl
  str_ofStr _ := rfl
  datetime_ofTime _ := rfl
  text_ofStr _ := rfl

structure Cells where
  time : Option Int := none
  schemaId : Option Int := none
  schemaName : Option String := none
  objectId : Option Int := none
  objectName : Option String := none
  details : Option String := none
  startSnapshot : Option Int := none
  endSnapshot : Option Int := none

def Cells.pairs (cells : Cells) (kind object : String) : List (String × Value) :=
  [("start_snapshot",shown plainDriver .int cells.startSnapshot),
    ("end_snapshot",shown plainDriver .int cells.endSnapshot),
    ("snapshot_id",.int 4),
    ("snapshot_time",shown plainDriver .time cells.time),
    ("event_kind",.text kind),
    ("object_kind",.text object),
    ("schema_id",shown plainDriver .int cells.schemaId),
    ("schema_name",shown plainDriver .text cells.schemaName),
    ("object_id",shown plainDriver .int cells.objectId),
    ("object_name",shown plainDriver .text cells.objectName),
    ("details",shown plainDriver .text cells.details)]

def Cells.row (cells : Cells) (kind object : String) : Dict String Value :=
  Dict.ofPairs (cells.pairs kind object)

theorem get?_row (cells : Cells) (kind object key : String) :
    (cells.row kind object).get? key = (cells.pairs kind object).lookup key := by
  rw [Dict.get?, Cells.row, entries_ofPairs (by simp [Cells.pairs])]

theorem nullable_shown {α : Type} {of : α → Value} (x : Option α) :
    Nullable plainDriver of (some (shown plainDriver of x)) := by
  cases x with
  | none => exact .inr (.inl rfl)
  | some a => exact .inr (.inr ⟨a,rfl⟩)

theorem documented_row (cells : Cells) {kind object : String} (known : kind ∈ eventKinds)
    (known' : object ∈ objectKinds) : Documented plainDriver (cells.row kind object) where
  snapshotId := ⟨4,get?_row cells kind object _⟩
  eventKind := ⟨kind,known,get?_row cells kind object _⟩
  objectKind := ⟨object,known',get?_row cells kind object _⟩
  integers key asked := by
    rw [get?_row]
    simp only [List.mem_cons, List.not_mem_nil, or_false] at asked
    obtain rfl | rfl | rfl | rfl := asked <;> exact nullable_shown _
  texts key asked := by
    rw [get?_row]
    simp only [List.mem_cons, List.not_mem_nil, or_false] at asked
    obtain rfl | rfl | rfl := asked <;> exact nullable_shown _
  time := by
    rw [get?_row]
    exact nullable_shown _

def ordersCells : Cells := { schemaName := "main", objectId := some 7, objectName := "orders" }

def threeEvents : List (Dict String Value) :=
  [ordersCells.row "created" "table",
    { ordersCells with
      time := some 1700000000000000
      schemaId := some 1
      details := some "columns"
      startSnapshot := some 3
      endSnapshot := some 5 : Cells }.row "altered" "view",
    { schemaId := some 2, schemaName := "staging", endSnapshot := some 5 : Cells }.row
      "dropped" "schema"]

theorem three_events_decoded :
    Faithful plainDriver "schema" none 0 threeEvents ↔
      ∀ row ∈ threeEvents, row.get? "event_kind" ≠ some (plainDriver.ofStr "renamed") := by
  apply documented_rows_decoded_iff plainDriver "schema" none 0 threeEvents (List.cons_ne_nil _ _)
  intro row member
  simp only [threeEvents, List.mem_cons, List.not_mem_nil, or_false] at member
  obtain rfl | rfl | rfl := member <;> exact documented_row _ (by decide) (by decide)

/-- The enum has no member for the documented `renamed`. -/
theorem rename_blocks : ¬ ∀ (driver : Driver Value) (name : String) (connection : Option Nat)
    (now : Int) (rows : List (Dict String Value)), rows ≠ [] →
      (∀ row ∈ rows, Documented driver row) → Faithful driver name connection now rows := by
  intro all
  have faithful := all plainDriver "schema" none 0 [ordersCells.row "renamed" "table"] (List.cons_ne_nil _ _)
    fun row member => List.mem_singleton.mp member ▸ documented_row _ (by decide) (by decide)
  obtain ⟨batch,built,_⟩ := faithful
  rw [changeBatch, List.mapM_cons, fromRow_renamed (get?_row _ "renamed" _ _)] at built
  cases built

end CdcDdlRows
