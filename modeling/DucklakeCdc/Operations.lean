import DucklakeCdc.QueryErrors

/-!
The operations of `CDCClient` (`client/client.py`) with their arguments: what each refuses
before it sends anything, and the one statement that it sends. The statement says which
operation it is and every argument that is not `None`.
-/
namespace CdcOperations
open CdcBatch CdcRetry CdcSql CdcQuery
open CdcLoop (ConsumerKind ConsumerMode)

/-- Values of one Python type, as SQL and back. None of them is `None`. -/
structure Codec (α : Type) where
  of : α → SqlValue
  read : SqlValue → Option α
  back : ∀ a, read (of a) = some a
  given : ∀ a, of a ≠ .none

namespace Codec

def text : Codec (List Char) where
  of := .text
  read
    | .text value => some value
    | _ => none
  back _ := rfl
  given _ no := by cases no

def int : Codec Int where
  of := .int
  read
    | .int value => some value
    | _ => none
  back _ := rfl
  given _ no := by cases no

def bool : Codec Bool where
  of := .bool
  read
    | .bool value => some value
    | _ => none
  back _ := rfl
  given _ no := by cases no

theorem mapM_back {α : Type} (item : Codec α) (values : List α) :
    (values.map item.of).mapM item.read = some values := by
  rw [Programs.mapM_eq_some_iff, List.forall₂_map_left_iff, List.forall₂_same]
  exact fun value _ => item.back value

def list {α : Type} (item : Codec α) : Codec (List α) where
  of values := .list (values.map item.of)
  read
    | .list items => items.mapM item.read
    | _ => none
  back := mapM_back item
  given _ no := by cases no

variable {α : Type} (codec : Codec α)

def ofOption : Option α → SqlValue
  | none => .none
  | some a => codec.of a

def readOption (value : SqlValue) : Option (Option α) :=
  if value.isNone then some none else (codec.read value).map some

@[simp] theorem readOption_of (value : Option α) :
    codec.readOption (codec.ofOption value) = some value := by
  cases value with
  | none => rfl
  | some a =>
    have given : (codec.of a).isNone = false := by
      have some_ := codec.given a
      cases same : codec.of a with
      | none => exact absurd same some_
      | _ => rfl
    rw [ofOption, readOption, given, if_neg Bool.false_ne_true, codec.back a]
    rfl

@[simp] theorem read_of (a : α) : codec.read (codec.of a) = some a := codec.back a

end Codec

inductive Position where
  | named (name : List Char)
  | snapshot (id : Int)

def Position.codec : Codec Position where
  of
    | .named name => .text name
    | .snapshot id => .int id
  read
    | .text name => some (.named name)
    | .int id => some (.snapshot id)
    | _ => none
  back p := by cases p <;> rfl
  given p no := by cases p <;> cases no

structure ListenOptions where
  timeoutMs : Int := 1000
  maxSnapshots : Int := 100
  pollMinMs : Option Int := none

structure ReadOptions where
  maxSnapshots : Int := 100
  startSnapshot : Option Int := none
  endSnapshot : Option Int := none
  autoCommit : Option Bool := none

/-- The methods of `CDCClient`; those for ticks and for changes take the same arguments. -/
inductive Operation where
  | version
  | dmlConsumerCreate (name : List Char) (tableName : Option (List Char)) (tableId : Option Int)
      (changeTypes : Option (List (List Char))) (startAt : Position)
  | ddlConsumerCreate (name : List Char) (schemas tableNames : Option (List (List Char)))
      (startAt : Position)
  | consumerReset (name : List Char) (toSnapshot : Option Position)
  | consumerDrop (name : List Char)
  | consumerForceRelease (name : List Char)
  | consumerHeartbeat (name : List Char)
  | listConsumers
  | dmlListen (mode : ConsumerMode) (name : List Char) (o : ListenOptions) (coalesce : Option Bool)
  | dmlRead (mode : ConsumerMode) (name : List Char) (o : ReadOptions)
  | ddlListen (mode : ConsumerMode) (name : List Char) (o : ListenOptions)
  | ddlRead (mode : ConsumerMode) (name : List Char) (o : ReadOptions)
  | dmlTicksQuery (fromSnapshot : Int) (toSnapshot : Option Int)
      (tableNames : Option (List (List Char))) (tableIds : Option (List Int))
  | dmlChangesQuery (fromSnapshot : Int) (toSnapshot : Option Int) (tableName : Option (List Char))
      (tableId : Option Int)
  | ddlTicksQuery (fromSnapshot : Int) (toSnapshot : Option Int)
  | schemaDiff (schemaName tableName : List Char) (fromSnapshot toSnapshot : Int)
  | window (name : List Char) (maxSnapshots : Int)
  | commit (name : List Char) (snapshot : Int)

def Operation.method : Operation → Method
  | .version => .version
  | .dmlConsumerCreate .. => .cdcDmlConsumerCreate
  | .ddlConsumerCreate .. => .cdcDdlConsumerCreate
  | .consumerReset .. => .cdcConsumerReset
  | .consumerDrop .. => .cdcConsumerDrop
  | .consumerForceRelease .. => .cdcConsumerForceRelease
  | .consumerHeartbeat .. => .cdcConsumerHeartbeat
  | .listConsumers => .cdcListConsumers
  | .dmlListen .changes .. => .cdcDmlChangesListen
  | .dmlListen .ticks .. => .cdcDmlTicksListen
  | .dmlRead .changes .. => .cdcDmlChangesRead
  | .dmlRead .ticks .. => .cdcDmlTicksRead
  | .ddlListen .changes .. => .cdcDdlChangesListen
  | .ddlListen .ticks .. => .cdcDdlTicksListen
  | .ddlRead .changes .. => .cdcDdlChangesRead
  | .ddlRead .ticks .. => .cdcDdlTicksRead
  | .dmlTicksQuery .. => .cdcDmlTicksQuery
  | .dmlChangesQuery .. => .cdcDmlChangesQuery
  | .ddlTicksQuery .. => .cdcDdlTicksQuery
  | .schemaDiff .. => .cdcSchemaDiff
  | .window .. => .cdcWindow
  | .commit .. => .cdcCommit

abbrev Named := List (String × SqlValue)

def whenGiven {α : Type} (codec : Codec α) (key : String) (value : Option α) : Named :=
  (value.map fun a => (key,codec.of a)).toList

def ListenOptions.named (o : ListenOptions) : Named :=
  [("timeout_ms",.int o.timeoutMs),("max_snapshots",.int o.maxSnapshots)] ++
    whenGiven .int "poll_min_ms" o.pollMinMs

def windowError (functionName : String) : Exc := .raised .valueError
  (functionName ++ ": start_snapshot and end_snapshot must both be provided when either is set")

def ReadOptions.named (functionName : String) (o : ReadOptions) : Except Exc Named :=
  let rest := whenGiven .bool "auto_commit" o.autoCommit
  match o.startSnapshot, o.endSnapshot with
  | none, none => .ok ([("max_snapshots",.int o.maxSnapshots)] ++ rest)
  | some start, some stop => .ok ([("max_snapshots",.int o.maxSnapshots),
      ("start_snapshot",.int start),("end_snapshot",.int stop)] ++ rest)
  | _, _ => .error (windowError functionName)

def createError : Exc := .raised .valueError
  ("cdc_dml_consumer_create requires exactly one of table_name or table_id " ++
    "(DML consumers are pinned to a single table).")

def changesQueryError : Exc := .raised .valueError
  "cdc_dml_changes_query requires exactly one of table_name or table_id"

/-- The named arguments, or the `ValueError` that is raised instead of sending anything. -/
def Operation.named : Operation → Except Exc Named
  | .dmlConsumerCreate _ tableName tableId changeTypes startAt =>
    if tableName.isNone = tableId.isNone then .error createError
    else .ok [("start_at",Position.codec.of startAt),("table_name",Codec.text.ofOption tableName),
      ("table_id",Codec.int.ofOption tableId),
      ("change_types",(Codec.list .text).ofOption changeTypes)]
  | .ddlConsumerCreate _ schemas tableNames startAt =>
    .ok [("start_at",Position.codec.of startAt),("schemas",(Codec.list .text).ofOption schemas),
      ("table_names",(Codec.list .text).ofOption tableNames)]
  | .consumerReset _ toSnapshot => .ok [("to_snapshot",Position.codec.ofOption toSnapshot)]
  | .dmlListen _ _ o coalesce => .ok (o.named ++ whenGiven .bool "coalesce" coalesce)
  | .ddlListen _ _ o => .ok o.named
  | .dmlRead .changes _ o => o.named "cdc_dml_changes_read"
  | .dmlRead .ticks _ o => o.named "cdc_dml_ticks_read"
  | .ddlRead .changes _ o => o.named "cdc_ddl_changes_read"
  | .ddlRead .ticks _ o => o.named "cdc_ddl_ticks_read"
  | .dmlTicksQuery _ _ tableNames tableIds =>
    .ok [("table_names",(Codec.list .text).ofOption tableNames),
      ("table_ids",(Codec.list .int).ofOption tableIds)]
  | .dmlChangesQuery _ _ tableName tableId =>
    if tableName.isNone = tableId.isNone then .error changesQueryError
    else .ok [("table_name",Codec.text.ofOption tableName),("table_id",Codec.int.ofOption tableId)]
  | .window _ maxSnapshots => .ok [("max_snapshots",.int maxSnapshots)]
  | _ => .ok []

def span (fromSnapshot : Int) (toSnapshot : Option Int) : List SqlValue :=
  .int fromSnapshot :: (toSnapshot.map SqlValue.int).toList

def Operation.args : Operation → List SqlValue
  | .version => []
  | .listConsumers => []
  | .dmlConsumerCreate name _ _ _ _ => [.text name]
  | .ddlConsumerCreate name _ _ _ => [.text name]
  | .consumerReset name _ => [.text name]
  | .consumerDrop name => [.text name]
  | .consumerForceRelease name => [.text name]
  | .consumerHeartbeat name => [.text name]
  | .dmlListen _ name _ _ => [.text name]
  | .dmlRead _ name _ => [.text name]
  | .ddlListen _ name _ => [.text name]
  | .ddlRead _ name _ => [.text name]
  | .dmlTicksQuery fromSnapshot toSnapshot _ _ => span fromSnapshot toSnapshot
  | .dmlChangesQuery fromSnapshot toSnapshot _ _ => span fromSnapshot toSnapshot
  | .ddlTicksQuery fromSnapshot toSnapshot => span fromSnapshot toSnapshot
  | .schemaDiff schemaName tableName fromSnapshot toSnapshot =>
    [.text schemaName,.text tableName,.int fromSnapshot,.int toSnapshot]
  | .window name _ => [.text name]
  | .commit name snapshot => [.text name,.int snapshot]

def Operation.inCatalog (catalog : List Char) : Operation → List SqlValue
  | .version => []
  | .schemaDiff .. => []
  | _ => [.text catalog]

def onWire (named : Named) : List (List Char × SqlValue) :=
  named.map fun arg => (arg.1.toList,arg.2)

def Operation.statement (catalog : List Char) (op : Operation) : Except Exc (List Char) :=
  op.named.map fun named => op.method.statement (op.inCatalog catalog ++ op.args) (onWire named)

/-- The catalog that the statement names. -/
def Operation.catalog? (catalog : List Char) : Operation → Option (List Char)
  | .version => none
  | .schemaDiff .. => none
  | _ => some catalog

def Operation.Refused : Operation → Prop
  | .dmlConsumerCreate _ tableName tableId _ _ => tableName.isNone = tableId.isNone
  | .dmlChangesQuery _ _ tableName tableId => tableName.isNone = tableId.isNone
  | .dmlRead _ _ o => o.startSnapshot.isNone ≠ o.endSnapshot.isNone
  | .ddlRead _ _ o => o.startSnapshot.isNone ≠ o.endSnapshot.isNone
  | _ => False

def value : Named → String → SqlValue
  | [], _ => .none
  | arg :: named, key => if arg.1 = key then arg.2 else value named key

def argument : List (List Char × SqlValue) → String → SqlValue
  | [], _ => .none
  | arg :: sent, key => if arg.1 = key.toList then arg.2 else argument sent key

theorem value_missing {named : Named} {key : String} (missing : key ∉ named.map Prod.fst) :
    value named key = .none := by
  induction named with
  | nil => rfl
  | cons arg named ih =>
    rw [List.map_cons, List.mem_cons, not_or] at missing
    rw [value, if_neg (Ne.symm missing.1), ih missing.2]

theorem argument_sent {named : Named} (distinct : (named.map Prod.fst).Nodup) :
    argument (given (onWire named)) = value named := by
  induction named with
  | nil => rfl
  | cons arg named ih =>
    rw [List.map_cons, List.nodup_cons] at distinct
    have tail := ih distinct.2
    funext key
    have same : arg.1.toList = key.toList ↔ arg.1 = key := String.toList_inj
    cases sent : arg.2.isNone with
    | true =>
      have none_ : arg.2 = .none := by
        cases shape : arg.2 with
        | none => rfl
        | _ => rw [shape] at sent; cases sent
      have dropped : given (onWire (arg :: named)) = given (onWire named) := by
        simp [onWire, given, sent]
      rw [dropped, tail, value]
      split
      · next here => rw [← here, value_missing distinct.1, none_]
      · rfl
    | false =>
      have kept : given (onWire (arg :: named)) =
          (arg.1.toList,arg.2) :: given (onWire named) := by
        simp [onWire, given, sent]
      rw [kept, argument, value, tail]
      simp only [same]

def allMethods : List Method := [.version,.cdcDmlConsumerCreate,.cdcDdlConsumerCreate,
  .cdcConsumerReset,.cdcConsumerDrop,.cdcConsumerForceRelease,.cdcConsumerHeartbeat,
  .cdcListConsumers,.cdcDmlChangesListen,.cdcDmlChangesRead,.cdcDmlTicksListen,.cdcDmlTicksRead,
  .cdcDmlTicksQuery,.cdcDmlChangesQuery,.cdcDdlChangesListen,.cdcDdlChangesRead,
  .cdcDdlTicksListen,.cdcDdlTicksRead,.cdcDdlTicksQuery,.cdcSchemaDiff,.cdcWindow,.cdcCommit]

def methodOf (functionName : List Char) : Option Method :=
  allMethods.find? fun m => m.functionName.toList = functionName

theorem functionName_injective {m m' : Method} (same : m.functionName = m'.functionName) :
    m = m' := by
  cases m <;> cases m' <;> first | rfl | (exact absurd same (by decide))

@[simp] theorem methodOf_name (m : Method) : methodOf m.functionName.toList = some m := by
  have listed : m ∈ allMethods := by cases m <;> decide
  cases found : methodOf m.functionName.toList with
  | none => simpa using List.find?_eq_none.mp found m listed
  | some m' =>
    have same := List.find?_some found
    rw [decide_eq_true_eq, String.toList_inj] at same
    rw [functionName_injective same]

def readSpan : List SqlValue → Option (Int × Option Int)
  | [.int fromSnapshot] => some (fromSnapshot,none)
  | [.int fromSnapshot,.int toSnapshot] => some (fromSnapshot,some toSnapshot)
  | _ => none

@[simp] theorem readSpan_span (fromSnapshot : Int) (toSnapshot : Option Int) :
    readSpan (span fromSnapshot toSnapshot) = some (fromSnapshot,toSnapshot) := by
  cases toSnapshot <;> rfl

def readName : List SqlValue → Option (List Char)
  | [.text name] => some name
  | _ => none

section
variable (named : String → SqlValue)

def readListen : Option ListenOptions := do
  let timeoutMs ← Codec.int.read (named "timeout_ms")
  let maxSnapshots ← Codec.int.read (named "max_snapshots")
  let pollMinMs ← Codec.int.readOption (named "poll_min_ms")
  pure ⟨timeoutMs,maxSnapshots,pollMinMs⟩

def readRead : Option ReadOptions := do
  let maxSnapshots ← Codec.int.read (named "max_snapshots")
  let startSnapshot ← Codec.int.readOption (named "start_snapshot")
  let endSnapshot ← Codec.int.readOption (named "end_snapshot")
  let autoCommit ← Codec.bool.readOption (named "auto_commit")
  pure ⟨maxSnapshots,startSnapshot,endSnapshot,autoCommit⟩

def readDmlListen (mode : ConsumerMode) (args : List SqlValue) : Option Operation := do
  let name ← readName args
  let o ← readListen named
  let coalesce ← Codec.bool.readOption (named "coalesce")
  pure (.dmlListen mode name o coalesce)

def readArgs (args : List SqlValue) : Method → Option Operation
  | .version => some .version
  | .cdcListConsumers => some .listConsumers
  | .cdcDmlConsumerCreate => do
    let name ← readName args
    let tableName ← Codec.text.readOption (named "table_name")
    let tableId ← Codec.int.readOption (named "table_id")
    let changeTypes ← (Codec.list .text).readOption (named "change_types")
    let startAt ← Position.codec.read (named "start_at")
    pure (.dmlConsumerCreate name tableName tableId changeTypes startAt)
  | .cdcDdlConsumerCreate => do
    let name ← readName args
    let schemas ← (Codec.list .text).readOption (named "schemas")
    let tableNames ← (Codec.list .text).readOption (named "table_names")
    let startAt ← Position.codec.read (named "start_at")
    pure (.ddlConsumerCreate name schemas tableNames startAt)
  | .cdcConsumerReset => do
    let name ← readName args
    let toSnapshot ← Position.codec.readOption (named "to_snapshot")
    pure (.consumerReset name toSnapshot)
  | .cdcConsumerDrop => (readName args).map .consumerDrop
  | .cdcConsumerForceRelease => (readName args).map .consumerForceRelease
  | .cdcConsumerHeartbeat => (readName args).map .consumerHeartbeat
  | .cdcDmlChangesListen => readDmlListen named .changes args
  | .cdcDmlTicksListen => readDmlListen named .ticks args
  | .cdcDdlChangesListen => do
    let name ← readName args
    let o ← readListen named
    pure (.ddlListen .changes name o)
  | .cdcDdlTicksListen => do
    let name ← readName args
    let o ← readListen named
    pure (.ddlListen .ticks name o)
  | .cdcDmlChangesRead => do
    let name ← readName args
    let o ← readRead named
    pure (.dmlRead .changes name o)
  | .cdcDmlTicksRead => do
    let name ← readName args
    let o ← readRead named
    pure (.dmlRead .ticks name o)
  | .cdcDdlChangesRead => do
    let name ← readName args
    let o ← readRead named
    pure (.ddlRead .changes name o)
  | .cdcDdlTicksRead => do
    let name ← readName args
    let o ← readRead named
    pure (.ddlRead .ticks name o)
  | .cdcDmlTicksQuery => do
    let (fromSnapshot,toSnapshot) ← readSpan args
    let tableNames ← (Codec.list .text).readOption (named "table_names")
    let tableIds ← (Codec.list .int).readOption (named "table_ids")
    pure (.dmlTicksQuery fromSnapshot toSnapshot tableNames tableIds)
  | .cdcDmlChangesQuery => do
    let (fromSnapshot,toSnapshot) ← readSpan args
    let tableName ← Codec.text.readOption (named "table_name")
    let tableId ← Codec.int.readOption (named "table_id")
    pure (.dmlChangesQuery fromSnapshot toSnapshot tableName tableId)
  | .cdcDdlTicksQuery => do
    let (fromSnapshot,toSnapshot) ← readSpan args
    pure (.ddlTicksQuery fromSnapshot toSnapshot)
  | .cdcSchemaDiff =>
    match args with
    | [.text schemaName,.text tableName,.int fromSnapshot,.int toSnapshot] =>
      some (.schemaDiff schemaName tableName fromSnapshot toSnapshot)
    | _ => none
  | .cdcWindow => do
    let name ← readName args
    let maxSnapshots ← Codec.int.read (named "max_snapshots")
    pure (.window name maxSnapshots)
  | .cdcCommit =>
    match args with
    | [.text name,.int snapshot] => some (.commit name snapshot)
    | _ => none

end

@[simp] theorem value_whenGiven {α : Type} (codec : Codec α) (key : String) (given : Option α) :
    value (whenGiven codec key given) key = codec.ofOption given := by
  cases given with
  | none => rfl
  | some a => exact if_pos rfl

theorem reads_listen (o : ListenOptions) (rest : Option Bool) :
    readListen (value (o.named ++ whenGiven .bool "coalesce" rest)) = some o := by
  obtain ⟨timeoutMs,maxSnapshots,pollMinMs⟩ := o
  cases pollMinMs <;> cases rest <;> rfl

theorem reads_coalesce (o : ListenOptions) (coalesce : Option Bool) :
    Codec.bool.readOption (value (o.named ++ whenGiven .bool "coalesce" coalesce) "coalesce") =
      some coalesce := by
  obtain ⟨timeoutMs,maxSnapshots,pollMinMs⟩ := o
  cases pollMinMs <;> cases coalesce <;> rfl

theorem reads_read {functionName : String} {o : ReadOptions} {named : Named}
    (sent : o.named functionName = .ok named) : readRead (value named) = some o := by
  obtain ⟨maxSnapshots,startSnapshot,endSnapshot,autoCommit⟩ := o
  cases startSnapshot <;> cases endSnapshot <;> cases autoCommit <;> cases sent <;> rfl

theorem reads_args {op : Operation} {named : Named} (sent : op.named = .ok named) :
    readArgs (value named) op.args op.method = some op := by
  cases op with
  | version => rfl
  | listConsumers => rfl
  | consumerDrop name => rfl
  | consumerForceRelease name => rfl
  | consumerHeartbeat name => rfl
  | schemaDiff schemaName tableName fromSnapshot toSnapshot => rfl
  | commit name snapshot => rfl
  | window name maxSnapshots =>
    cases sent
    rfl
  | ddlTicksQuery fromSnapshot toSnapshot => cases toSnapshot <;> rfl
  | consumerReset name toSnapshot =>
    cases sent
    simp [readArgs, Operation.method, Operation.args, readName, value]
  | ddlConsumerCreate name schemas tableNames startAt =>
    cases sent
    simp [readArgs, Operation.method, Operation.args, readName, value, Position.codec.back]
  | dmlConsumerCreate name tableName tableId changeTypes startAt =>
    simp only [Operation.named] at sent
    split at sent <;> cases sent
    simp [readArgs, Operation.method, Operation.args, readName, value, Position.codec.back]
  | dmlTicksQuery fromSnapshot toSnapshot tableNames tableIds =>
    cases sent
    simp [readArgs, Operation.method, Operation.args, value]
  | dmlChangesQuery fromSnapshot toSnapshot tableName tableId =>
    simp only [Operation.named] at sent
    split at sent <;> cases sent
    simp [readArgs, Operation.method, Operation.args, value]
  | dmlListen mode name o coalesce =>
    cases sent
    cases mode <;> simp [readArgs, readDmlListen, Operation.method, Operation.args, readName,
      reads_listen, reads_coalesce]
  | ddlListen mode name o =>
    cases sent
    have read : readListen (value o.named) = some o := by
      simpa [whenGiven] using reads_listen o none
    cases mode <;> simp [readArgs, Operation.method, Operation.args, readName, read]
  | dmlRead mode name o =>
    cases mode <;> simp [readArgs, Operation.method, Operation.args, readName, reads_read sent]
  | ddlRead mode name o =>
    cases mode <;> simp [readArgs, Operation.method, Operation.args, readName, reads_read sent]

theorem read_keys {functionName : String} {o : ReadOptions} {named : Named}
    (sent : o.named functionName = .ok named) : (named.map Prod.fst).Nodup := by
  obtain ⟨maxSnapshots,startSnapshot,endSnapshot,autoCommit⟩ := o
  cases startSnapshot <;> cases endSnapshot <;> cases autoCommit <;> cases sent <;>
    simp [whenGiven]

theorem listen_keys (o : ListenOptions) (coalesce : Option Bool) :
    ((o.named ++ whenGiven .bool "coalesce" coalesce).map Prod.fst).Nodup := by
  obtain ⟨timeoutMs,maxSnapshots,pollMinMs⟩ := o
  cases pollMinMs <;> cases coalesce <;> simp [ListenOptions.named, whenGiven]

theorem named_keys {op : Operation} {named : Named} (sent : op.named = .ok named) :
    (named.map Prod.fst).Nodup := by
  cases op with
  | dmlListen mode name o coalesce =>
    cases sent
    exact listen_keys o coalesce
  | ddlListen mode name o =>
    cases sent
    simpa [whenGiven] using listen_keys o none
  | dmlRead mode name o => cases mode <;> exact read_keys sent
  | ddlRead mode name o => cases mode <;> exact read_keys sent
  | dmlConsumerCreate name tableName tableId changeTypes startAt =>
    simp only [Operation.named] at sent
    split at sent <;> cases sent
    simp
  | dmlChangesQuery fromSnapshot toSnapshot tableName tableId =>
    simp only [Operation.named] at sent
    split at sent <;> cases sent
    simp
  | _ =>
    cases sent
    simp

def readCatalog (named : String → SqlValue) (m : Method) (args : List SqlValue) :
    Option (Option (List Char) × Operation) :=
  match m, args with
  | .cdcSchemaDiff, args => (readArgs named args .cdcSchemaDiff).map (none,·)
  | m, .text catalog :: args => (readArgs named args m).map (some catalog,·)
  | _, _ => none

/-- The operation of a statement, with the catalog where it names one. -/
def readStatement (sql : List Char) : Option (Option (List Char) × Operation) :=
  if sql = scalarFunctionSql "cdc_version" then some (none,.version)
  else do
    let call ← readFunctionCall sql
    let m ← methodOf call.functionName
    readCatalog (argument call.named) m call.args

theorem reads_catalog {named : String → SqlValue} {op : Operation}
    (read : readArgs named op.args op.method = some op) (table : op ≠ .version)
    (catalog : List Char) :
    readCatalog named op.method (op.inCatalog catalog ++ op.args) =
      some (op.catalog? catalog,op) := by
  cases op with
  | version => exact absurd rfl table
  | dmlListen mode name o coalesce => cases mode <;> exact congrArg (Option.map _) read
  | ddlListen mode name o => cases mode <;> exact congrArg (Option.map _) read
  | dmlRead mode name o => cases mode <;> exact congrArg (Option.map _) read
  | ddlRead mode name o => cases mode <;> exact congrArg (Option.map _) read
  | _ => exact congrArg (Option.map _) read

theorem not_version (functionName : List Char) (args : List SqlValue)
    (named : List (List Char × SqlValue)) :
    tableFunctionSql functionName args named ≠ scalarFunctionSql "cdc_version" := by
  intro same
  have star := congrArg (fun sql : List Char => sql[7]?) same
  have star_ : (tableFunctionSql functionName args named)[7]? = some '*' := rfl
  have name_ : (scalarFunctionSql "cdc_version")[7]? = some 'c' := by decide
  simp only [star_, name_] at star
  exact absurd star (by decide)

theorem statement_table {op : Operation} (table : op ≠ .version) (args : List SqlValue)
    (named : List (List Char × SqlValue)) : op.method.statement args named =
      tableFunctionSql op.method.functionName.toList args named := by
  cases op with
  | version => exact absurd rfl table
  | dmlListen mode name o coalesce => cases mode <;> rfl
  | ddlListen mode name o => cases mode <;> rfl
  | dmlRead mode name o => cases mode <;> rfl
  | ddlRead mode name o => cases mode <;> rfl
  | _ => rfl

theorem reads_statement {catalog sql : List Char} {op : Operation}
    (sent : op.statement catalog = .ok sql) :
    readStatement sql = some (op.catalog? catalog,op) := by
  cases named_ : op.named with
  | error x =>
    rw [Operation.statement, named_] at sent
    cases sent
  | ok named =>
    rw [Operation.statement, named_] at sent
    have sql_ : op.method.statement (op.inCatalog catalog ++ op.args) (onWire named) = sql :=
      Except.ok.inj sent
    by_cases version : op = .version
    · obtain rfl := version
      rw [← sql_]
      rfl
    · rw [statement_table version] at sql_
      have plain : '(' ∉ op.method.functionName.toList := by
        cases op.method <;> decide
      have call := (rendering_faithful _ plain (op.inCatalog catalog ++ op.args)
        (onWire named)).1
      rw [readStatement, ← sql_, if_neg (not_version _ _ _), call]
      simp only [Option.bind_eq_bind, Option.bind_some, methodOf_name,
        argument_sent (named_keys named_)]
      exact reads_catalog (reads_args named_) version catalog

def Operation.refusal : Operation → Exc
  | .dmlConsumerCreate .. => createError
  | .dmlRead .changes .. => windowError "cdc_dml_changes_read"
  | .dmlRead .ticks .. => windowError "cdc_dml_ticks_read"
  | .ddlRead .changes .. => windowError "cdc_ddl_changes_read"
  | .ddlRead .ticks .. => windowError "cdc_ddl_ticks_read"
  | _ => changesQueryError

theorem half_window {functionName : String} {o : ReadOptions}
    (half : o.startSnapshot.isNone ≠ o.endSnapshot.isNone) :
    o.named functionName = .error (windowError functionName) := by
  obtain ⟨maxSnapshots,startSnapshot,endSnapshot,autoCommit⟩ := o
  cases startSnapshot <;> cases endSnapshot <;> first | rfl | exact absurd rfl half

theorem whole_window {functionName : String} {o : ReadOptions}
    (whole : o.startSnapshot.isNone = o.endSnapshot.isNone) :
    ∃ named, o.named functionName = .ok named := by
  obtain ⟨maxSnapshots,startSnapshot,endSnapshot,autoCommit⟩ := o
  cases startSnapshot <;> cases endSnapshot <;> first | exact ⟨_,rfl⟩ | cases whole

theorem named_refused {op : Operation} (refused : op.Refused) :
    op.named = .error op.refusal := by
  cases op with
  | dmlConsumerCreate name tableName tableId changeTypes startAt => exact if_pos refused
  | dmlChangesQuery fromSnapshot toSnapshot tableName tableId => exact if_pos refused
  | dmlRead mode name o => cases mode <;> exact half_window refused
  | ddlRead mode name o => cases mode <;> exact half_window refused
  | _ => exact refused.elim

theorem named_sent {op : Operation} (sent : ¬ op.Refused) : ∃ named, op.named = .ok named := by
  cases op with
  | dmlConsumerCreate name tableName tableId changeTypes startAt => exact ⟨_,if_neg sent⟩
  | dmlChangesQuery fromSnapshot toSnapshot tableName tableId => exact ⟨_,if_neg sent⟩
  | dmlRead mode name o => cases mode <;> exact whole_window (not_not.mp sent)
  | ddlRead mode name o => cases mode <;> exact whole_window (not_not.mp sent)
  | _ => exact ⟨_,rfl⟩

/-- A call of the client is refused with the `ValueError` of its method, and then nothing is
    sent; or its statement can be read back to the operation, all its arguments and the
    catalog where the call names one. So two calls that differ in what they name never send
    the same statement. -/
theorem statements_faithful (catalog : List Char) (op : Operation) :
    (op.Refused → op.statement catalog = .error op.refusal ∧ op.refusal.cls = .valueError) ∧
    (¬ op.Refused → ∃ sql, op.statement catalog = .ok sql ∧
      readStatement sql = some (op.catalog? catalog,op) ∧
      ∀ catalog' op', op'.statement catalog' = .ok sql →
        op' = op ∧ op'.catalog? catalog' = op.catalog? catalog) := by
  constructor
  · intro refused
    constructor
    · rw [Operation.statement, named_refused refused]
      rfl
    · cases op with
      | dmlRead mode name o => cases mode <;> rfl
      | ddlRead mode name o => cases mode <;> rfl
      | _ => rfl
  · intro accepted
    obtain ⟨named,sent⟩ := named_sent accepted
    have statement : op.statement catalog =
        .ok (op.method.statement (op.inCatalog catalog ++ op.args) (onWire named)) := by
      rw [Operation.statement, sent]
      rfl
    have read := reads_statement statement
    refine ⟨_,statement,read,?_⟩
    intro catalog' op' same
    have both := Option.some.inj ((reads_statement same).symm.trans read)
    exact ⟨congrArg Prod.snd both,congrArg Prod.fst both⟩

end CdcOperations
