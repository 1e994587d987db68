import DucklakeCdc.DdlRows
import DucklakeCdc.QueryErrors

/-!
What the methods of `CDCClient` make of their results (`client/client.py`). Every cell is
looked up by the name of its column, so the order of the columns does not matter, nor do
columns that the client does not know; only `ChangeRow.from_row` keeps those.
-/
namespace CdcTypedResults
open CdcBatch CdcChangeRows CdcDdlRows CdcQuery CdcRetry OrderedDicts Programs
open CdcTransient (ConsumerWindow)
variable {V : Type}

/-- With the conversions of the other cells (`bool`, iteration and `UUID`) and the lists that
    the driver returns. -/
structure Cells (V : Type) extends Driver V where
  bool : V → Bool
  items : V → Option (List V)
  uuid : V → Option (BitVec 128)
  ofItems : List V → V
  isNone_ofItems : ∀ values, isNone (ofItems values) = false
  items_ofItems : ∀ values, items (ofItems values) = some values

structure TypedDMLTick extends DMLTickRow where
  consumerName : Option String

structure TypedDDLTick extends DDLTickRow where
  consumerName : Option String

structure SchemaDiffRow where
  snapshotId : Int
  snapshotTime : Option Int
  changeKind : String
  columnId : Option Int
  oldName : Option String
  newName : Option String
  oldType : Option String
  newType : Option String
  oldDefault : Option String
  newDefault : Option String
  oldNullable : Option Bool
  newNullable : Option Bool
  parentColumnId : Option Int

structure ConsumerListEntry where
  consumerName : String
  consumerKind : String
  consumerId : Int
  tableId : Option Int
  tableName : Option String
  terminalAtSnapshot : Option Int
  ownerToken : Option (BitVec 128)
  ownerAcquiredAt : Option Int
  ownerHeartbeatAt : Option Int
  leaseIntervalSeconds : Option Int

structure ConsumerCommit where
  consumerName : String
  committedSnapshot : Int
  schemaVersion : Int

section
variable (cells : Cells V) (row : Dict String V)

/-- `int(row[key])`; a missing key raises as well. -/
def requiredInt (key : String) : Option Int := (row.get? key).bind cells.int

def requiredStr (key : String) : Option String := (row.get? key).map cells.str

def requiredBool (key : String) : Option Bool := (row.get? key).map cells.bool

def optionalInt (key : String) : Option (Option Int) :=
  optional cells.int (cellOf cells.toDriver row key)

def optionalTime (key : String) : Option (Option Int) :=
  optional cells.datetime (cellOf cells.toDriver row key)

def optionalText (key : String) : Option String :=
  optionalStr cells.toConversions (cellOf cells.toDriver row key)

def optionalBool (key : String) : Option Bool := (cellOf cells.toDriver row key).map cells.bool

def intTuple (key : String) : Option (List Int) :=
  match cellOf cells.toDriver row key with
  | none => some []
  | some value => (cells.items value).bind fun items => items.mapM cells.int

def dmlTickRow : Option TypedDMLTick := do
  let startSnapshot ← optionalInt cells row "start_snapshot"
  let endSnapshot ← optionalInt cells row "end_snapshot"
  let snapshotId ← requiredInt cells row "snapshot_id"
  let snapshotTime ← optionalTime cells row "snapshot_time"
  let schemaVersion ← requiredInt cells row "schema_version"
  let tableIds ← intTuple cells row "table_ids"
  return {
    startSnapshot, endSnapshot, snapshotId, snapshotTime, schemaVersion, tableIds
    consumerName := optionalText cells row "consumer_name" }

def ddlTickRow : Option TypedDDLTick := do
  let startSnapshot ← optionalInt cells row "start_snapshot"
  let endSnapshot ← optionalInt cells row "end_snapshot"
  let snapshotId ← requiredInt cells row "snapshot_id"
  let snapshotTime ← optionalTime cells row "snapshot_time"
  let schemaVersion ← requiredInt cells row "schema_version"
  return {
    startSnapshot, endSnapshot, snapshotId, snapshotTime, schemaVersion
    consumerName := optionalText cells row "consumer_name" }

def schemaDiffRow : Option SchemaDiffRow := do
  let snapshotId ← requiredInt cells row "snapshot_id"
  let snapshotTime ← optionalTime cells row "snapshot_time"
  let changeKind ← requiredStr cells row "change_kind"
  let columnId ← optionalInt cells row "column_id"
  let parentColumnId ← optionalInt cells row "parent_column_id"
  return {
    snapshotId, snapshotTime, changeKind, columnId
    oldName := optionalText cells row "old_name"
    newName := optionalText cells row "new_name"
    oldType := optionalText cells row "old_type"
    newType := optionalText cells row "new_type"
    oldDefault := optionalText cells row "old_default"
    newDefault := optionalText cells row "new_default"
    oldNullable := optionalBool cells row "old_nullable"
    newNullable := optionalBool cells row "new_nullable"
    parentColumnId }

def listEntry : Option ConsumerListEntry := do
  let consumerName ← requiredStr cells row "consumer_name"
  let consumerKind ← requiredStr cells row "consumer_kind"
  let consumerId ← requiredInt cells row "consumer_id"
  let tableId ← optionalInt cells row "table_id"
  let terminalAtSnapshot ← optionalInt cells row "terminal_at_snapshot"
  let ownerToken ← optional cells.uuid (cellOf cells.toDriver row "owner_token")
  let ownerAcquiredAt ← optionalTime cells row "owner_acquired_at"
  let ownerHeartbeatAt ← optionalTime cells row "owner_heartbeat_at"
  let leaseIntervalSeconds ← optionalInt cells row "lease_interval_seconds"
  return {
    consumerName, consumerKind, consumerId, tableId
    tableName := optionalText cells row "table_name"
    terminalAtSnapshot, ownerToken, ownerAcquiredAt, ownerHeartbeatAt, leaseIntervalSeconds }

def consumerWindow : Option ConsumerWindow := do
  let startSnapshot ← requiredInt cells row "start_snapshot"
  let endSnapshot ← requiredInt cells row "end_snapshot"
  let hasChanges ← requiredBool cells row "has_changes"
  let schemaVersion ← requiredInt cells row "schema_version"
  let schemaChangesPending ← requiredBool cells row "schema_changes_pending"
  let terminal ← requiredBool cells row "terminal"
  let terminalAtSnapshot ← optionalInt cells row "terminal_at_snapshot"
  return ⟨startSnapshot,endSnapshot,hasChanges,schemaVersion,schemaChangesPending,terminal,
    terminalAtSnapshot⟩

def consumerCommit : Option ConsumerCommit := do
  let consumerName ← requiredStr cells row "consumer_name"
  let committedSnapshot ← requiredInt cells row "committed_snapshot"
  let schemaVersion ← requiredInt cells row "schema_version"
  return ⟨consumerName,committedSnapshot,schemaVersion⟩

end

inductive Result (V : Type) where
  | version (text : String)
  | nothing
  | entries (entries : List ConsumerListEntry)
  | changes (rows : List (TypedRow V))
  | schemaChanges (rows : List SchemaChangeRow)
  | dmlTicks (rows : List TypedDMLTick)
  | ddlTicks (rows : List TypedDDLTick)
  | diffs (rows : List SchemaDiffRow)
  | window (window : ConsumerWindow)
  | commit (commit : ConsumerCommit)

inductive Shape where
  | version | nothing | entries | changes | schemaChanges | dmlTicks | ddlTicks | diffs | window
  | commit
  deriving DecidableEq

def shape : Method → Shape
  | .version => .version
  | .cdcDmlConsumerCreate => .nothing
  | .cdcDdlConsumerCreate => .nothing
  | .cdcConsumerReset => .nothing
  | .cdcConsumerDrop => .nothing
  | .cdcConsumerForceRelease => .nothing
  | .cdcConsumerHeartbeat => .nothing
  | .cdcListConsumers => .entries
  | .cdcDmlChangesListen => .changes
  | .cdcDmlChangesRead => .changes
  | .cdcDmlChangesQuery => .changes
  | .cdcDmlTicksListen => .dmlTicks
  | .cdcDmlTicksRead => .dmlTicks
  | .cdcDmlTicksQuery => .dmlTicks
  | .cdcDdlChangesListen => .schemaChanges
  | .cdcDdlChangesRead => .schemaChanges
  | .cdcDdlTicksListen => .ddlTicks
  | .cdcDdlTicksRead => .ddlTicks
  | .cdcDdlTicksQuery => .ddlTicks
  | .cdcSchemaDiff => .diffs
  | .cdcWindow => .window
  | .cdcCommit => .commit

def Shape.columns : Shape → List String
  | .version => []
  | .nothing => []
  | .entries => ["consumer_name","consumer_kind","consumer_id","table_id","table_name",
      "terminal_at_snapshot","owner_token","owner_acquired_at","owner_heartbeat_at",
      "lease_interval_seconds"]
  | .changes => fixedChangeFields
  | .schemaChanges => ["snapshot_id","snapshot_time","event_kind","object_kind","schema_id",
      "schema_name","object_id","object_name","details","start_snapshot","end_snapshot"]
  | .dmlTicks => ["consumer_name","start_snapshot","end_snapshot","snapshot_id","snapshot_time",
      "schema_version","table_ids"]
  | .ddlTicks => ["consumer_name","start_snapshot","end_snapshot","snapshot_id","snapshot_time",
      "schema_version"]
  | .diffs => ["snapshot_id","snapshot_time","change_kind","column_id","old_name","new_name",
      "old_type","new_type","old_default","new_default","old_nullable","new_nullable",
      "parent_column_id"]
  | .window => ["start_snapshot","end_snapshot","has_changes","schema_version",
      "schema_changes_pending","terminal","terminal_at_snapshot"]
  | .commit => ["consumer_name","committed_snapshot","schema_version"]

section
variable (cells : Cells V)

def typed (s : Shape) : Answer V → Option (Result V)
  | .value value => some (.version (cells.str value))
  | .row row =>
    if s = .commit then (consumerCommit cells row).map .commit
    else (consumerWindow cells row).map .window
  | .rows rows =>
    match s with
    | .entries => (rows.mapM (listEntry cells)).map .entries
    | .changes => (rows.mapM (CdcChangeRows.fromRow cells.toConversions)).map .changes
    | .schemaChanges => (rows.mapM (CdcDdlRows.fromRow cells.toDriver)).map .schemaChanges
    | .dmlTicks => (rows.mapM (dmlTickRow cells)).map .dmlTicks
    | .ddlTicks => (rows.mapM (ddlTickRow cells)).map .ddlTicks
    | .diffs => (rows.mapM (schemaDiffRow cells)).map .diffs
    | _ => some .nothing

def result (m : Method) (cursor : Cursor V) : Except Exc (Option (Result V)) :=
  (m.read cursor).map (typed cells (shape m))

end

def Agree (names : List String) (row row' : Dict String V) : Prop :=
  ∀ key ∈ names, row.get? key = row'.get? key

section
variable {cells : Cells V} {row row' : Dict String V}

theorem dmlTickRow_congr (agree : Agree Shape.dmlTicks.columns row row') :
    dmlTickRow cells row = dmlTickRow cells row' := by
  simp (disch := decide) only [dmlTickRow, optionalInt, requiredInt, optionalTime, intTuple,
    optionalText, cellOf, given, agree _]

theorem ddlTickRow_congr (agree : Agree Shape.ddlTicks.columns row row') :
    ddlTickRow cells row = ddlTickRow cells row' := by
  simp (disch := decide) only [ddlTickRow, optionalInt, requiredInt, optionalTime, optionalText,
    cellOf, given, agree _]

theorem schemaDiffRow_congr (agree : Agree Shape.diffs.columns row row') :
    schemaDiffRow cells row = schemaDiffRow cells row' := by
  simp (disch := decide) only [schemaDiffRow, optionalInt, requiredInt, requiredStr, optionalTime,
    optionalText, optionalBool, cellOf, given, agree _]

theorem listEntry_congr (agree : Agree Shape.entries.columns row row') :
    listEntry cells row = listEntry cells row' := by
  simp (disch := decide) only [listEntry, optionalInt, requiredInt, requiredStr, optionalTime,
    optionalText, cellOf, given, agree _]

theorem consumerWindow_congr (agree : Agree Shape.window.columns row row') :
    consumerWindow cells row = consumerWindow cells row' := by
  simp (disch := decide) only [consumerWindow, optionalInt, requiredInt, requiredBool, cellOf,
    given, agree _]

theorem consumerCommit_congr (agree : Agree Shape.commit.columns row row') :
    consumerCommit cells row = consumerCommit cells row' := by
  simp (disch := decide) only [consumerCommit, requiredInt, requiredStr, agree _]

theorem schemaChangeRow_congr (agree : Agree Shape.schemaChanges.columns row row') :
    CdcDdlRows.fromRow cells.toDriver row = CdcDdlRows.fromRow cells.toDriver row' := by
  simp (disch := decide) only [CdcDdlRows.fromRow, cellOf, given, agree _]

theorem get?_zip {columns : List String} {row : List V} (distinct : columns.Nodup)
    (whole : columns.length ≤ row.length) (key : String) :
    (Dict.ofPairs (columns.zip row)).get? key = (columns.zip row).lookup key := by
  rw [Dict.get?, entries_ofPairs]
  rwa [List.map_fst_zip whole]

theorem mapM_same {α β : Type} {R : α → α → Prop} {f : α → Option β} {first second : List α}
    (each : List.Forall₂ R first second) (same : ∀ a b, R a b → f a = f b) :
    first.mapM f = second.mapM f := by
  induction each with
  | nil => rfl
  | cons here _ ih => rw [List.mapM_cons, List.mapM_cons, same _ _ here, ih]

theorem map_mapM {α β γ : Type} (f : α → Option β) (g : β → γ) (items : List α) :
    (items.mapM f).map (List.map g) = items.mapM fun a => (f a).map g := by
  induction items with
  | nil => rfl
  | cons a items ih =>
    rw [List.mapM_cons, List.mapM_cons, ← ih]
    cases f a <;> cases items.mapM f <;> rfl

end

def bare (row : TypedRow V) : TypedRow V := { row with values := [] }

/-- The result without the columns that only `ChangeRow` keeps. -/
def Result.known : Result V → Result V
  | .changes rows => .changes (rows.map bare)
  | result => result

section
variable {cells : Cells V} {rows rows' : List (Dict String V)}

theorem typed_rows (cells : Cells V) (s : Shape) (same : List.Forall₂ (Agree s.columns) rows rows') :
    (s ≠ .changes → typed cells s (.rows rows) = typed cells s (.rows rows')) ∧
      (typed cells s (.rows rows)).map Result.known =
        (typed cells s (.rows rows')).map Result.known := by
  by_cases changes : s = .changes
  · subst changes
    refine ⟨fun other => absurd rfl other,?_⟩
    have each := mapM_same (f := fun row => (CdcChangeRows.fromRow cells.toConversions row).map
      bare) same fun row row' agree => by
        rw [fromRow_congr agree, Option.map_map]
        rfl
    rw [← map_mapM, ← map_mapM] at each
    have shown := congrArg (Option.map Result.changes) each
    simpa only [typed, Option.map_map, Function.comp_def, Result.known] using shown
  · have equal : typed cells s (.rows rows) = typed cells s (.rows rows') := by
      cases s with
      | changes => exact absurd rfl changes
      | entries =>
        exact congrArg (Option.map Result.entries) (mapM_same same fun _ _ => listEntry_congr)
      | schemaChanges =>
        exact congrArg (Option.map Result.schemaChanges)
          (mapM_same same fun _ _ => schemaChangeRow_congr)
      | dmlTicks =>
        exact congrArg (Option.map Result.dmlTicks) (mapM_same same fun _ _ => dmlTickRow_congr)
      | ddlTicks =>
        exact congrArg (Option.map Result.ddlTicks) (mapM_same same fun _ _ => ddlTickRow_congr)
      | diffs =>
        exact congrArg (Option.map Result.diffs) (mapM_same same fun _ _ => schemaDiffRow_congr)
      | _ => rfl
    exact ⟨fun _ => equal,congrArg (Option.map Result.known) equal⟩

theorem typed_row {s : Shape} (single : s = .window ∨ s = .commit) {row row' : Dict String V}
    (agree : Agree s.columns row row') :
    typed cells s (.row row) = typed cells s (.row row') := by
  rcases single with rfl | rfl
  · exact congrArg (Option.map Result.window) (consumerWindow_congr agree)
  · exact congrArg (Option.map Result.commit) (consumerCommit_congr agree)

end

section
variable {cursor cursor' : Cursor V} {rows rows' : List (Dict String V)}

theorem one_cases (heard : cursor.list = .ok rows) :
    (∃ row, rows = [row] ∧ cursor.one = .ok row) ∨
      rows.length ≠ 1 ∧ cursor.one = .error (rowsError rows.length) := by
  rw [Cursor.one, heard]
  rcases rows with _ | ⟨row,_ | ⟨_,_⟩⟩
  · exact Or.inr ⟨by simp,rfl⟩
  · exact Or.inl ⟨row,rfl,rfl⟩
  · exact Or.inr ⟨by simp,rfl⟩

theorem read_single {m : Method} (single : shape m = .window ∨ shape m = .commit) :
    m.read cursor = Answer.row <$> cursor.one := by
  cases m with
  | cdcWindow => rfl
  | cdcCommit => rfl
  | _ => rcases single with no | no <;> cases no

theorem read_plural {m : Method} (table : m ≠ .version)
    (plural : ¬ (shape m = .window ∨ shape m = .commit)) (heard : cursor.list = .ok rows) :
    m.read cursor = .ok (.rows rows) := by
  cases m with
  | version => exact absurd rfl table
  | cdcWindow => exact absurd (Or.inl rfl) plural
  | cdcCommit => exact absurd (Or.inr rfl) plural
  | _ => exact congrArg (Functor.map Answer.rows) heard

theorem result_single {m : Method} (single : shape m = .window ∨ shape m = .commit)
    (heard : cursor.list = .ok rows) (heard' : cursor'.list = .ok rows')
    (same : List.Forall₂ (Agree (shape m).columns) rows rows') :
    result cells m cursor = result cells m cursor' := by
  rw [result, result, read_single single, read_single single]
  rcases one_cases heard with ⟨row,rfl,one⟩ | ⟨many,one⟩
  · cases same with
    | cons agree rest =>
      cases rest
      rename_i row'
      have one' : cursor'.one = .ok row' := by
        rw [Cursor.one, heard']
        rfl
      rw [one, one']
      exact congrArg Except.ok (typed_row single agree)
  · rcases one_cases heard' with ⟨row',rfl,_⟩ | ⟨_,one'⟩
    · exact absurd same.length_eq many
    · rw [one, one', same.length_eq]

theorem values_typed {changes : List (TypedRow V)}
    (read : typed cells .changes (.rows rows) = some (.changes changes)) :
    changes.map (fun row => row.values) =
      rows.map fun row => row.entries.filter fun entry => entry.1 ∉ fixedChangeFields := by
  obtain ⟨built,all,same⟩ := Option.map_eq_some_iff.mp read
  cases same
  have each := mapM_eq_some_iff.mp all
  rw [← List.forall₂_eq_eq_eq, List.forall₂_map_left_iff, List.forall₂_map_right_iff]
  exact each.flip.imp fun typed row there => values_fromRow there

theorem changes_shape {m : Method} {changes : List (TypedRow V)}
    (read : result cells m cursor = .ok (some (.changes changes))) : shape m = .changes := by
  rw [result] at read
  cases answered : m.read cursor with
  | error e =>
    rw [answered] at read
    cases read
  | ok answer =>
    rw [answered] at read
    have typed_ : typed cells (shape m) answer = some (.changes changes) := Except.ok.inj read
    cases answer with
    | value value => cases typed_
    | row row =>
      rw [typed] at typed_
      split at typed_ <;> simp at typed_
    | rows rows =>
      generalize shape m = s at typed_
      cases s with
      | changes => rfl
      | _ => simp [typed] at typed_

/-- The result of a method depends on the cells under the names it knows, and on how many rows
    there are. Columns in another order, and new ones, change nothing of it, but for the
    `values` of the change rows, which are all the columns that `ChangeRow` does not know. -/
theorem results_by_name (cells : Cells V) (m : Method) (table : m ≠ .version)
    (heard : cursor.list = .ok rows) (heard' : cursor'.list = .ok rows')
    (same : List.Forall₂ (Agree (shape m).columns) rows rows') :
    (shape m ≠ .changes → result cells m cursor = result cells m cursor') ∧
    (result cells m cursor).map (Option.map Result.known) =
      (result cells m cursor').map (Option.map Result.known) ∧
    ∀ changes, result cells m cursor = .ok (some (.changes changes)) →
      changes.map (fun row => row.values) =
        rows.map fun row => row.entries.filter fun entry => entry.1 ∉ fixedChangeFields := by
  by_cases single : shape m = .window ∨ shape m = .commit
  · have equal : result cells m cursor = result cells m cursor' :=
      result_single single heard heard' same
    refine ⟨fun _ => equal,by rw [equal],?_⟩
    intro changes read
    have shape_ := changes_shape read
    rw [shape_] at single
    rcases single with no | no <;> cases no
  · have both := typed_rows cells (shape m) same
    have plural : result cells m cursor = .ok (typed cells (shape m) (.rows rows)) := by
      rw [result, read_plural table single heard]
      rfl
    have plural' : result cells m cursor' = .ok (typed cells (shape m) (.rows rows')) := by
      rw [result, read_plural table single heard']
      rfl
    rw [plural']
    refine ⟨fun other => plural.trans (congrArg Except.ok (both.1 other)),?_,?_⟩
    · rw [plural]
      exact congrArg Except.ok both.2
    · intro changes read
      have shape_ := changes_shape read
      rw [plural, shape_] at read
      exact values_typed (Except.ok.inj read)

end

/-! A tick in another order of the columns, with a new one -/

inductive Cell where
  | null
  | int (n : Int)
  | text (s : String)
  | time (t : Int)
  | list (items : List Cell)

def plainCells : Cells Cell where
  isNone
    | .null => true
    | _ => false
  int
    | .int n => some n
    | _ => none
  str
    | .text s => s
    | _ => ""
  changeType _ := none
  datetime
    | .time t => some t
    | _ => none
  null := .null
  ofInt := .int
  ofStr := .text
  ofTime := .time
  text
    | .text s => some s
    | _ => none
  isoformat t := toString t
  isNone_null := rfl
  isNone_ofInt _ := rfl
  isNone_ofStr _ := rfl
  isNone_ofTime _ := rfl
  int_ofInt _ := rfl
  str_ofStr _ := rfl
  datetime_ofTime _ := rfl
  text_ofStr _ := rfl
  bool
    | .null => false
    | .int n => n != 0
    | .text s => s != ""
    | .time _ => true
    | .list items => !items.isEmpty
  items
    | .list items => some items
    | _ => none
  uuid _ := none
  ofItems := .list
  isNone_ofItems _ := rfl
  items_ofItems _ := rfl

def oldColumns : List String := ["snapshot_id","schema_version","table_ids"]

def oldRow : List Cell := [.int 4,.int 2,.list [.int 7]]

def newColumns : List String := ["table_ids","region","schema_version","snapshot_id"]

def newRow : List Cell := [.list [.int 7],.text "eu",.int 2,.int 4]

theorem agree_columns : Agree Shape.dmlTicks.columns
    (Dict.ofPairs (oldColumns.zip oldRow)) (Dict.ofPairs (newColumns.zip newRow)) := by
  intro key known
  rw [get?_zip (by decide) (by decide), get?_zip (by decide) (by decide)]
  simp only [Shape.columns, List.mem_cons, List.not_mem_nil, or_false] at known
  rcases known with rfl | rfl | rfl | rfl | rfl | rfl | rfl <;> rfl

theorem tick_of_new_columns :
    result plainCells .cdcDmlTicksRead ⟨oldColumns,.ok [oldRow]⟩ =
      result plainCells .cdcDmlTicksRead ⟨newColumns,.ok [newRow]⟩ :=
  (results_by_name plainCells .cdcDmlTicksRead (by decide) rfl rfl
    (.cons agree_columns .nil)).1 (by decide)

end CdcTypedResults
