import DucklakeCdc.BatchBuilding
import DucklakeCdc.OrderedDicts
import DucklakeCdc.Programs

/-!
From a result of `cdc_dml_changes_listen` or `cdc_dml_changes_read` to the changes of a
batch (`_CDCResult.list`, `ChangeRow.from_row`, `_build_change_batch`). The extension's
columns and the table's own share one dictionary for each row and are told apart by name.
-/
namespace CdcChangeRows
open CdcBatch OrderedDicts Programs
variable {V : Type}

def fixedChangeFields : List String :=
  ["consumer_name","start_snapshot","end_snapshot","snapshot_id","rowid","change_type","table_id",
    "table_name","snapshot_time","author","commit_message","commit_extra_info"]

/-- What Python's conversions make of a database value; `none` where one raises. -/
structure Conversions (V : Type) where
  isNone : V → Bool
  int : V → Option Int
  str : V → String
  changeType : V → Option ChangeType
  datetime : V → Option Int

structure TypedRow (V : Type) extends ChangeRow V where
  consumerName : Option String
  author : Option String
  commitMessage : Option String
  commitExtraInfo : Option String

section
variable (conv : Conversions V)

def given (row : Dict String V) (key : String) : Option V :=
  (row.get? key).filter fun value => !conv.isNone value

def optionalStr (value : Option V) : Option String := value.map conv.str

def optional {α : Type} (convert : V → Option α) : Option V → Option (Option α)
  | none => some none
  | some value => (convert value).map some

def fromRow (row : Dict String V) : Option (TypedRow V) := do
  let values := row.entries.filter fun entry => entry.1 ∉ fixedChangeFields
  let startSnapshot ← optional conv.int (given conv row "start_snapshot")
  let endSnapshot ← optional conv.int (given conv row "end_snapshot")
  let snapshotId ← (row.get? "snapshot_id").bind conv.int
  let changeType ← (row.get? "change_type").bind conv.changeType
  let rowid ← optional conv.int (given conv row "rowid")
  let tableId ← optional conv.int (given conv row "table_id")
  let snapshotTime ← optional conv.datetime (given conv row "snapshot_time")
  return {
    startSnapshot, endSnapshot, snapshotId, changeType, rowid, tableId
    tableName := optionalStr conv (given conv row "table_name")
    snapshotTime, values
    consumerName := optionalStr conv (given conv row "consumer_name")
    author := optionalStr conv (given conv row "author")
    commitMessage := optionalStr conv (given conv row "commit_message")
    commitExtraInfo := optionalStr conv (given conv row "commit_extra_info") }

def list (columns : List String) (rows : List (List V)) : List (Dict String V) :=
  rows.map fun row => Dict.ofPairs (columns.zip row)

def typedRows (columns : List String) (rows : List (List V)) : Option (List (TypedRow V)) :=
  (list columns rows).mapM (fromRow conv)

def changeBatch (name : String) (connection : Option Nat) (now : Int) (columns : List String)
    (rows : List (List V)) : Option (Batch (Change V)) := do
  let typed ← typedRows conv columns rows
  dmlChangeBatch name connection now (typed.map TypedRow.toChangeRow)

end

structure ResultRow (V : Type) where
  metadata : List V
  own : List V

structure Result (V : Type) where
  metadata : List String
  columns : List String
  rows : List (ResultRow V)
  metadata_fixed : ∀ name ∈ metadata, name ∈ fixedChangeFields
  columns_distinct : columns.Nodup
  metadata_distinct : metadata.Nodup
  complete : ∀ row ∈ rows, row.metadata.length = metadata.length ∧
    row.own.length = columns.length

section
variable (conv : Conversions V) (name : String) (connection : Option Nat) (now : Int)

def Result.batch (result : Result V) : Option (Batch (Change V)) :=
  changeBatch conv name connection now (result.metadata ++ result.columns)
    (result.rows.map fun row => row.metadata ++ row.own)

/-- The batch that the extension's columns alone make. -/
def Result.metadataBatch (result : Result V) : Option (Batch (Change V)) :=
  changeBatch conv name connection now result.metadata (result.rows.map ResultRow.metadata)

end

def HasColumns (columns : List String) (row : ResultRow V) (values : List (String × V)) : Prop :=
  ∀ key, values.lookup key = (columns.zip row.own).lookup key

/-- Apart from the values of its changes, `batch` is what the extension's columns alone make
    of the result; the values are the table's columns. -/
def Faithful (result : Result V) (told batch : Batch (Change V)) : Prop :=
  ∃ values : List (List (String × V)),
    List.Forall₂ (HasColumns result.columns) result.rows values ∧
    batch = { told with
      items := List.zipWith (fun change values => { change with values := values })
        told.items values }

section
variable {conv : Conversions V} {row row' : Dict String V}

theorem fromRow_congr (agree : ∀ key ∈ fixedChangeFields, row.get? key = row'.get? key) :
    fromRow conv row = (fromRow conv row').map fun typed =>
      { typed with values := row.entries.filter fun entry => entry.1 ∉ fixedChangeFields } := by
  have same : ∀ key ∈ fixedChangeFields, given conv row key = given conv row' key := by
    intro key fixed
    rw [given, given, agree key fixed]
  unfold fromRow
  rw [same "start_snapshot" (by decide), same "end_snapshot" (by decide),
    agree "snapshot_id" (by decide), agree "change_type" (by decide), same "rowid" (by decide),
    same "table_id" (by decide), same "snapshot_time" (by decide), same "table_name" (by decide),
    same "consumer_name" (by decide), same "author" (by decide),
    same "commit_message" (by decide), same "commit_extra_info" (by decide)]
  simp only [Option.bind_eq_bind, Option.map_bind, Function.comp_def, Option.pure_def,
    Option.map_some]

theorem values_fromRow {typed : TypedRow V} (built : fromRow conv row = some typed) :
    typed.values = row.entries.filter fun entry => entry.1 ∉ fixedChangeFields := by
  simp only [fromRow, Option.bind_eq_bind, Option.bind_eq_some_iff] at built
  obtain ⟨_,_,_,_,_,_,_,_,_,_,_,_,_,_,same⟩ := built
  cases same
  rfl

end
theorem buildBatch_congr {ι : Type} {name : String} {connection : Option Nat} {now : Int}
    (rows : List (Row ι)) {rows' : List (Row ι)} (first : rows'.map Row.first = rows.map Row.first)
    (last : rows'.map Row.last = rows.map Row.last)
    (ids : rows'.map Row.snapshotId = rows.map Row.snapshotId) :
    buildBatch name connection now rows' = (buildBatch name connection now rows).map fun batch =>
      { batch with items := rows'.map Row.item } := by
  unfold buildBatch
  rw [first, last, ids]
  simp only [Option.bind_eq_bind, Option.map_bind, Function.comp_def, Option.pure_def,
    Option.map_some]

theorem mapM_updated {α β : Type} {f g : α → Option β} {update : α → β → β} {rows : List α}
    (same : ∀ row ∈ rows, f row = (g row).map (update row)) :
    rows.mapM f = (rows.mapM g).map fun built => List.zipWith update rows built := by
  induction rows with
  | nil => rfl
  | cons row rest ih =>
    have others := ih fun other member => same other (List.mem_cons_of_mem _ member)
    rw [List.mapM_cons, List.mapM_cons, same row List.mem_cons_self, others]
    cases g row <;> cases rest.mapM g <;> rfl

theorem length_of_mapM {α β : Type} {f : α → Option β} {rows : List α} {built : List β}
    (all : rows.mapM f = some built) : built.length = rows.length :=
  (mapM_eq_some_iff.mp all).length_eq.symm

section
variable {conv : Conversions V} {name : String} {connection : Option Nat} {now : Int}
  {result : Result V}

def Result.dict (result : Result V) (row : ResultRow V) : Dict String V :=
  Dict.ofPairs ((result.metadata ++ result.columns).zip (row.metadata ++ row.own))

def Result.metadataDict (result : Result V) (row : ResultRow V) : Dict String V :=
  Dict.ofPairs (result.metadata.zip row.metadata)

theorem batch_eq : result.batch conv name connection now =
    (result.rows.mapM fun row => fromRow conv (result.dict row)).bind fun typed =>
      dmlChangeBatch name connection now (typed.map TypedRow.toChangeRow) := by
  unfold Result.batch changeBatch typedRows list
  rw [List.map_map, List.mapM_map]
  rfl

theorem metadataBatch_eq : result.metadataBatch conv name connection now =
    (result.rows.mapM fun row => fromRow conv (result.metadataDict row)).bind fun typed =>
      dmlChangeBatch name connection now (typed.map TypedRow.toChangeRow) := by
  unfold Result.metadataBatch changeBatch typedRows list
  rw [List.map_map, List.mapM_map]
  rfl

theorem zip_row {row : ResultRow V} (member : row ∈ result.rows) :
    (result.metadata ++ result.columns).zip (row.metadata ++ row.own) =
      result.metadata.zip row.metadata ++ result.columns.zip row.own :=
  List.zip_append (result.complete row member).1.symm

theorem keys_own {row : ResultRow V} (member : row ∈ result.rows) :
    (result.columns.zip row.own).map Prod.fst = result.columns :=
  List.map_fst_zip (le_of_eq (result.complete row member).2.symm)

theorem keys_metadata {row : ResultRow V} (member : row ∈ result.rows) :
    (result.metadata.zip row.metadata).map Prod.fst = result.metadata :=
  List.map_fst_zip (le_of_eq (result.complete row member).1.symm)

theorem fromRow_dict (own : ∀ column ∈ result.columns, column ∉ fixedChangeFields)
    {row : ResultRow V} (member : row ∈ result.rows) :
    fromRow conv (result.dict row) = (fromRow conv (result.metadataDict row)).map fun typed =>
      { typed with values := result.columns.zip row.own } := by
  have agree : ∀ key ∈ fixedChangeFields,
      (result.dict row).get? key = (result.metadataDict row).get? key := by
    intro key fixed
    have missing : key ∉ (result.columns.zip row.own).map Prod.fst := by
      rw [keys_own member]
      exact fun known => own key known fixed
    rw [Result.dict, zip_row member, get?_ofPairs_append, get?_ofPairs_of_not_mem missing,
      Option.none_or]
    rfl
  have distinct : ((result.metadata.zip row.metadata ++ result.columns.zip row.own).map
      Prod.fst).Nodup := by
    rw [List.map_append, keys_own member, keys_metadata member]
    apply result.metadata_distinct.append result.columns_distinct
    intro key inside outside
    exact own key outside (result.metadata_fixed key inside)
  have values : (result.dict row).entries.filter (fun entry => entry.1 ∉ fixedChangeFields) =
      result.columns.zip row.own := by
    rw [Result.dict, zip_row member, entries_ofPairs distinct, List.filter_append]
    have dropped : (result.metadata.zip row.metadata).filter
        (fun entry => entry.1 ∉ fixedChangeFields) = [] := by
      rw [List.filter_eq_nil_iff]
      intro entry inside
      have fixed := result.metadata_fixed entry.1 (List.of_mem_zip inside).1
      simpa using fixed
    have kept : (result.columns.zip row.own).filter
        (fun entry => entry.1 ∉ fixedChangeFields) = result.columns.zip row.own := by
      rw [List.filter_eq_self]
      intro entry inside
      simpa using own entry.1 (List.of_mem_zip inside).1
    rw [dropped, kept, List.nil_append]
  rw [fromRow_congr agree, values]

theorem map_zipWith_update {α β γ : Type} {update : α → β → β} {f : β → γ} {rows : List α}
    {built : List β} (same : ∀ a b, f (update a b) = f b) (length : built.length = rows.length) :
    (List.zipWith update rows built).map f = built.map f := by
  induction rows generalizing built with
  | nil =>
    rw [List.length_nil, List.length_eq_zero_iff] at length
    rw [length]
    rfl
  | cons row rest ih =>
    cases built with
    | nil => rfl
    | cons first others =>
      rw [List.zipWith_cons_cons, List.map_cons, List.map_cons, same,
        ih (Nat.succ.inj length)]

theorem items_of_build {ι : Type} {rows : List (Row ι)} {batch : Batch ι}
    (built : buildBatch name connection now rows = some batch) :
    batch.items = rows.map Row.item ∧ rows ≠ [] := by
  simp only [buildBatch, Option.bind_eq_bind, Option.bind_eq_some_iff] at built
  obtain ⟨start,lowest,stop,_,same⟩ := built
  cases same
  refine ⟨rfl,?_⟩
  intro empty
  rw [empty] at lowest
  cases lowest

def TypedRow.change (typed : TypedRow V) : Change V := typed.toRow.item

/-- A column of the table under the name of a metadata column is taken for it. -/
theorem get?_shadowed {row : ResultRow V} (member : row ∈ result.rows) {key : String}
    (inside : key ∈ result.columns) :
    (result.dict row).get? key = (result.columns.zip row.own).lookup key := by
  have distinct : ((result.columns.zip row.own).map Prod.fst).Nodup := by
    rw [keys_own member]
    exact result.columns_distinct
  obtain ⟨value,found⟩ := lookup_isSome_of_mem (by rwa [keys_own member] : key ∈ _)
  have here : (Dict.ofPairs (result.columns.zip row.own)).get? key = some value := by
    rw [Dict.get?, entries_ofPairs distinct, found]
  rw [Result.dict, zip_row member, get?_ofPairs_append, here, Option.some_or, found]

theorem faithful_of_own {told : Batch (Change V)}
    (typed : result.metadataBatch conv name connection now = some told)
    (own : ∀ column ∈ result.columns, column ∉ fixedChangeFields) :
    ∃ batch, result.batch conv name connection now = some batch ∧ Faithful result told batch := by
  rw [metadataBatch_eq, Option.bind_eq_some_iff] at typed
  obtain ⟨typed,all,built⟩ := typed
  have length := length_of_mapM all
  let update : ResultRow V → TypedRow V → TypedRow V := fun row typed =>
    { typed with values := result.columns.zip row.own }
  have updated : (result.rows.mapM fun row => fromRow conv (result.dict row)) =
      some (List.zipWith update result.rows typed) := by
    rw [mapM_updated fun row member => fromRow_dict own member, all]
    rfl
  have same : ∀ {γ : Type} (f : TypedRow V → γ), (∀ row t, f (update row t) = f t) →
      (List.zipWith update result.rows typed).map f = typed.map f :=
    fun f unchanged => map_zipWith_update unchanged length
  have rebuilt : dmlChangeBatch name connection now
      ((List.zipWith update result.rows typed).map TypedRow.toChangeRow) =
      some { told with items := (List.zipWith update result.rows typed).map TypedRow.change } := by
    unfold dmlChangeBatch at built ⊢
    rw [buildBatch_congr ((typed.map TypedRow.toChangeRow).map ChangeRow.toRow), built,
      Option.map_some, List.map_map, List.map_map]
    · rfl
    all_goals
      simp only [List.map_map]
      exact same _ fun _ _ => rfl
  have items : told.items = typed.map TypedRow.change := by
    rw [(items_of_build built).1, List.map_map, List.map_map]
    rfl
  refine ⟨_,by rw [batch_eq, updated]; exact rebuilt,
    result.rows.map fun row => result.columns.zip row.own,?_,?_⟩
  · rw [List.forall₂_map_right_iff, List.forall₂_same]
    exact fun row _ key => rfl
  · rw [items, List.map_zipWith, List.zipWith_map, List.zipWith_comm]
    rfl

theorem own_of_faithful {told batch : Batch (Change V)}
    (typed : result.metadataBatch conv name connection now = some told)
    (built : result.batch conv name connection now = some batch)
    (faithful : Faithful result told batch) :
    ∀ column ∈ result.columns, column ∉ fixedChangeFields := by
  intro column inside fixed
  rw [metadataBatch_eq, Option.bind_eq_some_iff] at typed
  obtain ⟨before,allBefore,builtBefore⟩ := typed
  rw [batch_eq, Option.bind_eq_some_iff] at built
  obtain ⟨after,allAfter,builtAfter⟩ := built
  obtain ⟨values,each,same⟩ := faithful
  have toldItems := (items_of_build builtBefore).1
  have items := (items_of_build builtAfter).1
  have some_ := (items_of_build builtBefore).2
  rw [same] at items
  cases rows : result.rows with
  | nil =>
    rw [rows] at allBefore
    cases allBefore
    exact some_ rfl
  | cons row rest =>
    have member : row ∈ result.rows := by
      rw [rows]
      exact List.mem_cons_self
    rw [rows] at allBefore allAfter each
    simp only [List.mapM_cons, Option.bind_eq_bind, Option.bind_eq_some_iff] at allBefore allAfter
    obtain ⟨first,_,others,_,isBefore⟩ := allBefore
    obtain ⟨first',from_,others',_,isAfter⟩ := allAfter
    cases isBefore
    cases isAfter
    cases each with
    | @cons _ mapping _ mappings has _ =>
      rw [toldItems] at items
      have taken : mapping = first'.values := congrArg Change.values (List.cons.inj items).1
      have missing : mapping.lookup column = none := by
        rw [taken, values_fromRow from_, List.lookup_eq_none_iff]
        intro entry kept
        have free : entry.1 ∉ fixedChangeFields := by simpa using (List.mem_filter.mp kept).2
        have other : column ≠ entry.1 := fun here => free (here ▸ fixed)
        simpa using other
      have known : column ∈ (result.columns.zip row.own).map Prod.fst := by
        rwa [keys_own member]
      obtain ⟨value,found⟩ := lookup_isSome_of_mem known
      rw [has column, found] at missing
      cases missing

/-- The batch of a result with typed metadata keeps every column of the table, and takes its
    metadata from the extension, exactly if no column bears the name of a metadata field. -/
theorem user_columns_kept_iff (conv : Conversions V) (name : String) (connection : Option Nat)
    (now : Int) (result : Result V) (told : Batch (Change V))
    (typed : result.metadataBatch conv name connection now = some told) :
    (∃ batch, result.batch conv name connection now = some batch ∧ Faithful result told batch) ↔
      ∀ column ∈ result.columns, column ∉ fixedChangeFields := by
  constructor
  · intro kept
    obtain ⟨batch,built,faithful⟩ := kept
    exact own_of_faithful typed built faithful
  · exact faithful_of_own typed

end

/-! A table with a column `author` -/

inductive Value where
  | null
  | int (n : Int)
  | text (s : String)
  | time (t : Int)
  deriving DecidableEq, Repr

def plainConversions : Conversions Value where
  isNone value := value == .null
  int
    | .int n => some n
    | _ => none
  str
    | .null => "None"
    | .int n => toString n
    | .text s => s
    | .time t => toString t
  changeType
    | .text "insert" => some .insert
    | .text "delete" => some .delete
    | _ => none
  datetime
    | .time t => some t
    | _ => none

def inserted (columns : List String) (own : List Value) (distinct : columns.Nodup)
    (complete : own.length = columns.length) : Result Value where
  metadata := fixedChangeFields
  columns := columns
  rows := [⟨[.text "orders",.int 1,.int 1,.int 1,.int 0,.text "insert",.int 7,.text "main.orders",
    .time 0,.null,.null,.null],own⟩]
  metadata_fixed _ fixed := fixed
  columns_distinct := distinct
  metadata_distinct := by decide
  complete row member := by
    obtain rfl := List.mem_singleton.mp member
    exact ⟨rfl,complete⟩

def plainTable : Result Value :=
  inserted ["id","amount"] [.int 5,.int 100] (by decide) rfl

def bookTable : Result Value :=
  inserted ["id","author"] [.int 5,.text "Euclid"] (by decide) rfl

def insertedBatch : Batch (Change Value) where
  consumerName := "orders"
  batchId := "orders/1-1"
  startSnapshot := 1
  endSnapshot := 1
  snapshotIds := [1]
  receivedAt := 0
  items := [⟨.insert,1,some "main.orders",some 7,some 0,some 0,[]⟩]
  connection := none

theorem user_columns_kept_iff_plain :
    (∃ batch, plainTable.batch plainConversions "orders" none 0 = some batch ∧
      Faithful plainTable insertedBatch batch) ↔
      ∀ column ∈ plainTable.columns, column ∉ fixedChangeFields :=
  user_columns_kept_iff plainConversions "orders" none 0 plainTable insertedBatch rfl

/-- The column `author` of a table of books is missing from its changes. -/
theorem author_lost : ¬ ∀ (conv : Conversions Value) (name : String) (connection : Option Nat)
    (now : Int) (result : Result Value) (told : Batch (Change Value)),
    result.metadataBatch conv name connection now = some told →
      ∃ batch, result.batch conv name connection now = some batch ∧
        Faithful result told batch := by
  intro all
  have typed : bookTable.metadataBatch plainConversions "orders" none 0 = some insertedBatch := rfl
  obtain ⟨batch,built,faithful⟩ := all plainConversions "orders" none 0 bookTable insertedBatch typed
  exact own_of_faithful typed built faithful "author" (by decide) (by decide)

end CdcChangeRows
