import DucklakeCdc.CommitRecords
import DucklakeCdc.JsonDumps
import DucklakeCdc.OrderedDicts

/-!
What `StdoutSink` writes of a batch (`sinks/stdout.py`, `sinks/_json.py` and the `to_dict`
methods of `types.py`): a line for the window, one for each item and one for the commit. The
fallback of `json.dumps` gives a text for a date or time that is a value, not for one that is
a key; so a `MAP` with such keys, and nothing else, is what the sink fails on.
-/
namespace CdcStdout
open Programs JsonText JsonDumps OrderedDicts CdcBatch CdcCommitRecords CdcRetry

/-- Date and time values, in days or microseconds; `zone` is the offset of one that has it. -/
inductive Temporal where
  | date (days : Int)
  | datetime (micros : Int) (zone : Option Int)
  | time (micros : Int) (zone : Option Int)
  | timedelta (micros : Int)
  deriving DecidableEq

/-- `<`, which raises for values of different types, or if only one has a zone. -/
def Temporal.lt : Temporal → Temporal → Option Bool
  | .date a, .date b => some (decide (a < b))
  | .datetime a zone, .datetime b zone' =>
    if zone.isSome = zone'.isSome then some (decide (a < b)) else none
  | .time a zone, .time b zone' =>
    if zone.isSome = zone'.isSome then some (decide (a < b)) else none
  | .timedelta a, .timedelta b => some (decide (a < b))
  | _, _ => none

structure Texts where
  isoformat : Temporal → String
  str : Temporal → String

abbrev PyValue := Value Temporal

def text (value : String) : PyValue := .leaf (.str value)

def number (value : Int) : PyValue := .leaf (.int value)

def optional {α : Type} (of : α → PyValue) (value : Option α) : PyValue :=
  (value.map of).getD (.leaf .none)

def struct (entries : List (String × PyValue)) : PyValue :=
  .dict (entries.map fun entry => (.str entry.1,entry.2))

inductive Item where
  | change (item : Change PyValue)
  | schemaChange (item : SchemaChange)
  | dmlTick (item : DMLTick)
  | ddlTick (item : DDLTick)

section
variable (python : Texts)

def jsonDefault : Temporal → String
  | .date days => python.isoformat (.date days)
  | .datetime micros zone => python.isoformat (.datetime micros zone)
  | value => python.str value

def stamp (micros : Int) : PyValue := text (python.isoformat (.datetime micros (some 0)))

def Item.toDict : Item → Dict String PyValue
  | .change item => Dict.ofPairs [
      ("kind",text item.kind.value),
      ("snapshot_id",number item.snapshotId),
      ("table",optional text item.table),
      ("table_id",optional number item.tableId),
      ("rowid",optional number item.rowid),
      ("snapshot_time",optional (stamp python) item.snapshotTime),
      ("values",struct item.values)]
  | .schemaChange item => Dict.ofPairs [
      ("event_kind",text item.eventKind.value),
      ("object_kind",text item.objectKind.value),
      ("snapshot_id",number item.snapshotId),
      ("snapshot_time",optional (stamp python) item.snapshotTime),
      ("schema_id",optional number item.schemaId),
      ("schema_name",optional text item.schemaName),
      ("object_id",optional number item.objectId),
      ("object_name",optional text item.objectName),
      ("details",optional text item.details)]
  | .dmlTick item => Dict.ofPairs [
      ("snapshot_id",number item.snapshotId),
      ("snapshot_time",optional (stamp python) item.snapshotTime),
      ("schema_version",number item.schemaVersion),
      ("table_ids",.list (item.tableIds.map number))]
  | .ddlTick item => Dict.ofPairs [
      ("snapshot_id",number item.snapshotId),
      ("snapshot_time",optional (stamp python) item.snapshotTime),
      ("schema_version",number item.schemaVersion)]

def Item.type : Item → String
  | .change _ => "change"
  | .schemaChange _ => "schema_change"
  | _ => "tick"

/-- What `emit_window`, `write` and `emit_commit` hand to `emit`. -/
def payload : Record Item → Dict String PyValue
  | .window batch => Dict.ofPairs [
      ("type",text "window"),
      ("consumer",text batch.consumerName),
      ("batch_id",text batch.batchId),
      ("start_snapshot",number batch.startSnapshot),
      ("end_snapshot",number batch.endSnapshot),
      ("snapshot_ids",.list (batch.snapshotIds.map number)),
      ("received_at",stamp python batch.receivedAt),
      ("change_count",number batch.items.length)]
  | .item _ item => (item.toDict python).insert "type" (text item.type)
  | .commit batch => Dict.ofPairs [
      ("type",text "commit"),
      ("consumer",text batch.consumerName),
      ("batch_id",text batch.batchId),
      ("snapshot",number batch.endSnapshot)]

def given (record : Record Item) : PyValue := struct (payload python record).entries

def line (record : Record Item) : Option (List Char) :=
  dumps Temporal.lt (jsonDefault python) (given python record)

def emit (record : Record Item) : EStateM ExcClass (List Char) Unit :=
  match line python record with
  | none => throw .typeError
  | some written => modify fun stream => stream ++ (written ++ ['\n'])

/-- A line without a raw newline that reads back as one object, with everything of the payload. -/
def Tells (record : Record Item) (written : List Char) : Prop :=
  '\n' ∉ written ∧ ∃ members, read written = some (.dict members) ∧
    Recovers (jsonDefault python) (given python record) (.dict members)

/-- The text is a line for the window, one for each item in order and one for the commit. -/
def Framed (batch : Batch Item) (written : List Char) : Prop :=
  ∃ lines : List (List Char), written = lines.flatMap (fun line => line ++ ['\n']) ∧
    lines.length = batch.items.length + 2 ∧ List.Forall₂ (Tells python) (recordsOf batch) lines

end

/-- The columns of each change have different names and values as the database returns them. -/
def Returned (batch : Batch Item) : Prop :=
  ∀ item, .change item ∈ batch.items →
    (item.values.map Prod.fst).Nodup ∧ ∀ column ∈ item.values, Typed column.2

/-- No dictionary in a column, at any depth, has a date or time for a key. -/
def PlainKeys (batch : Batch Item) : Prop :=
  ∀ item, .change item ∈ batch.items → ∀ column ∈ item.values, KnownKeys column.2

section
variable {python : Texts} {record : Record Item} {P : List (Atom Temporal) → Prop}

theorem forall_keyLists_struct {entries : List (String × PyValue)} :
    (∀ keys ∈ keyLists (struct entries), P keys) ↔ P (entries.map fun entry => .str entry.1) ∧
      ∀ entry ∈ entries, ∀ keys ∈ keyLists entry.2, P keys := by
  rw [struct, forall_keyLists_dict, List.map_map, List.forall_mem_map]
  rfl

def Flat (value : PyValue) : Prop := keyLists value = []

@[simp] theorem flat_leaf (atom : Atom Temporal) : Flat (.leaf atom) := rfl

@[simp] theorem flat_optional {α : Type} {of : α → PyValue} (flat : ∀ a, Flat (of a))
    (value : Option α) : Flat (optional of value) := by
  cases value with
  | none => rfl
  | some a => exact flat a

@[simp] theorem flat_numbers (numbers : List Int) : Flat (.list (numbers.map number)) := by
  rw [Flat, keyLists_list, List.flatMap_map]
  exact List.flatMap_eq_nil_iff.mpr fun _ _ => rfl

@[simp] theorem flat_stamp (micros : Int) : Flat (stamp python micros) := rfl

@[simp] theorem flat_text (value : String) : Flat (text value) := rfl

@[simp] theorem flat_number (value : Int) : Flat (number value) := rfl

theorem type_new (item : Item) : "type" ∉ (item.toDict python).entries.map Prod.fst := by
  cases item <;> (rw [Item.toDict, entries_ofPairs (by simp)]; simp)

theorem toDict_flat (item : Item) : ∀ entry ∈ (item.toDict python).entries,
    Flat entry.2 ∨ ∃ change, item = .change change ∧ entry.2 = struct change.values := by
  cases item <;> (rw [Item.toDict, entries_ofPairs (by simp)]; simp)

theorem payload_flat (record : Record Item) : ∀ entry ∈ (payload python record).entries,
    Flat entry.2 ∨ ∃ batch item, record = .item batch (.change item) ∧ entry.2 = struct item.values := by
  cases record with
  | window batch =>
    rw [payload, entries_ofPairs (by simp)]
    simp
  | item batch item =>
    rw [payload, entries_insert_new (type_new item)]
    intro entry member
    rcases List.mem_append.mp member with own | added
    · rcases toDict_flat item entry own with flat | ⟨change,rfl,same⟩
      · exact Or.inl flat
      · exact Or.inr ⟨batch,change,rfl,same⟩
    · obtain rfl := List.mem_singleton.mp added
      exact Or.inl rfl
  | commit batch =>
    rw [payload, entries_ofPairs (by simp)]
    simp

theorem values_mem (batch : Batch Item) (item : Change PyValue) :
    ("values",struct item.values) ∈ (payload python (.item batch (.change item))).entries := by
  rw [payload, entries_insert_new (type_new _), Item.toDict, entries_ofPairs (by simp)]
  simp

theorem oneKind_names {names : List String} (distinct : names.Nodup) :
    OneKind (names.map (Atom.str : String → Atom Temporal)) := by
  refine ⟨distinct.map fun a b same => by cases same; rfl,?_⟩
  intro a first b second
  obtain ⟨_,_,rfl⟩ := List.mem_map.mp first
  obtain ⟨_,_,rfl⟩ := List.mem_map.mp second
  rfl

theorem typed_struct {entries : List (String × PyValue)} (distinct : (entries.map Prod.fst).Nodup)
    (each : ∀ entry ∈ entries, Typed entry.2) : Typed (struct entries) := by
  have names := oneKind_names distinct
  rw [List.map_map] at names
  exact forall_keyLists_struct.mpr ⟨names,each⟩

theorem knownKeys_struct {entries : List (String × PyValue)} :
    KnownKeys (struct entries) ↔ ∀ entry ∈ entries, KnownKeys entry.2 := by
  have names : ∀ key ∈ entries.map fun entry => (Atom.str entry.1 : Atom Temporal),
      key.kind ≠ .other := by
    intro key member
    obtain ⟨_,_,rfl⟩ := List.mem_map.mp member
    exact fun no => by cases no
  exact forall_keyLists_struct.trans (and_iff_right names)

theorem forall_keyLists_flat {value : PyValue} (flat : Flat value) :
    ∀ keys ∈ keyLists value, P keys := by
  rw [flat]
  simp

theorem typed_given (columns : ∀ batch item, record = .item batch (.change item) →
    (item.values.map Prod.fst).Nodup ∧ ∀ column ∈ item.values, Typed column.2) :
    Typed (given python record) := by
  refine typed_struct (payload python record).distinct fun entry member => ?_
  rcases payload_flat record entry member with flat | ⟨batch,item,same,values⟩
  · exact forall_keyLists_flat flat
  · obtain ⟨distinct,each⟩ := columns batch item same
    rw [values]
    exact typed_struct distinct each

theorem knownKeys_given : KnownKeys (given python record) ↔ ∀ batch item,
    record = .item batch (.change item) → ∀ column ∈ item.values, KnownKeys column.2 := by
  rw [given, knownKeys_struct]
  constructor
  · rintro each batch item rfl
    exact knownKeys_struct.mp (each _ (values_mem batch item))
  · intro columns entry member
    rcases payload_flat record entry member with flat | ⟨batch,item,same,values⟩
    · exact forall_keyLists_flat flat
    · rw [values, knownKeys_struct]
      exact columns batch item same

theorem mem_recordsOf {batch other : Batch Item} {item : Item} :
    .item other item ∈ recordsOf batch ↔ other = batch ∧ item ∈ batch.items := by
  simp [recordsOf, and_comm, eq_comm]

end

section
variable {python : Texts} {record : Record Item} {batch : Batch Item} {written : List Char}

-- Where a goal about `emit` is normalised, the payload is not to be computed.
attribute [local irreducible] line

theorem known_of_line (out : line python record = some written) : KnownKeys (given python record) := by
  rw [line] at out
  obtain ⟨json,encoded,_⟩ := Option.map_eq_some_iff.mp out
  exact known_of_encode encoded

theorem tells_of_line (typed : Typed (given python record)) (out : line python record = some written) :
    Tells python record written := by
  rw [line] at out
  obtain ⟨json,encoded,rfl⟩ := Option.map_eq_some_iff.mp out
  have recovers := recovers_of_encode typed encoded
  obtain ⟨_,members,_,_,rfl⟩ := encode_dict_eq_some_iff.mp encoded
  refine ⟨?_,members,read_render _,recovers⟩
  intro raw
  exact absurd (printable_render _ _ raw) (by decide)

theorem ends_emits (records : List (Record Item)) (before : List Char) :
    Ends (records.forM (emit python)) before
      (fun _ after => ∃ lines, records.mapM (line python) = some lines ∧
        after = before ++ lines.flatMap fun line => line ++ ['\n'])
      (fun e _ => e = .typeError ∧ records.mapM (line python) = none) := by
  induction records generalizing before with
  | nil => simp
  | cons record records ih =>
    change Ends (emit python record >>= fun _ => records.forM (emit python)) _ _ _
    rw [ends_bind, emit]
    cases out : line python record with
    | none =>
      rw [ends_throw]
      exact ⟨rfl,by simp [out]⟩
    | some written =>
      rw [ends_modify]
      refine ends_mono (ih _) ?_ ?_
      · rintro _ after ⟨lines,all,rfl⟩
        exact ⟨written :: lines,by simp [out, all],by simp⟩
      · rintro e _ ⟨raised,none_⟩
        exact ⟨raised,by simp [out, none_]⟩

def Succeeds (python : Texts) (batch : Batch Item) (before : List Char) : Prop :=
  Ends (write (emit python) batch) before
    (fun _ after => ∃ written, after = before ++ written ∧ Framed python batch written)
    (fun _ _ => False)

theorem plainKeys_of_lines {lines : List (List Char)}
    (all : (recordsOf batch).mapM (line python) = some lines) : PlainKeys batch := by
  intro item member
  obtain ⟨written,out⟩ := exists_of_forall₂ (mapM_eq_some_iff.mp all) (mem_recordsOf.mpr ⟨rfl,member⟩)
  exact knownKeys_given.mp (known_of_line out) batch item rfl

theorem typed_records (python : Texts) (returned : Returned batch) :
    ∀ record ∈ recordsOf batch, Typed (given python record) := by
  intro record member
  refine typed_given fun other item same => ?_
  subst same
  exact returned item (mem_recordsOf.mp member).2

theorem lines_of_plainKeys (python : Texts) (returned : Returned batch) (plain : PlainKeys batch) :
    ∃ lines, (recordsOf batch).mapM (line python) = some lines := by
  have each : ∀ record ∈ recordsOf batch, ∃ written, line python record = some written := by
    intro record member
    have known : KnownKeys (given python record) := by
      refine knownKeys_given.mpr fun other item same => ?_
      subst same
      exact plain item (mem_recordsOf.mp member).2
    obtain ⟨json,encoded⟩ := encode_of_known (typed_records python returned record member) known
    exact ⟨render json,by rw [line, dumps, encoded]; rfl⟩
  obtain ⟨lines,out⟩ := exists_forall₂ each
  exact ⟨lines,mapM_eq_some_iff.mpr out⟩

theorem framed_of_lines (returned : Returned batch) {lines : List (List Char)}
    (all : (recordsOf batch).mapM (line python) = some lines) :
    Framed python batch (lines.flatMap fun line => line ++ ['\n']) := by
  have out := mapM_eq_some_iff.mp all
  have each := (List.forall₂_and_left _ _).mpr ⟨typed_records python returned,out⟩
  refine ⟨lines,rfl,?_,each.imp fun record written ⟨typed,here⟩ => tells_of_line typed here⟩
  rw [← out.length_eq, length_recordsOf]

/-- `StdoutSink.write` prints a batch as it should exactly if no dictionary in its columns has
    a date or time for a key. -/
theorem stdout_framing_iff (python : Texts) (batch : Batch Item) (returned : Returned batch)
    (before : List Char) : Succeeds python batch before ↔ PlainKeys batch := by
  rw [Succeeds, write_eq]
  apply ends_iff
  refine ends_mono (ends_emits (recordsOf batch) before) ?_ ?_
  · rintro _ after ⟨lines,all,same⟩
    have framed := framed_of_lines returned all
    exact iff_of_true ⟨_,same,framed⟩ (plainKeys_of_lines all)
  · rintro e _ ⟨_,none_⟩
    refine iff_of_false id fun plain => ?_
    obtain ⟨lines,all⟩ := lines_of_plainKeys python returned plain
    rw [none_] at all
    cases all

end

def iso : Texts where
  isoformat
    | .date _ => "2024-01-01"
    | _ => "1970-01-01T00:00:00+00:00"
  str _ := "1 day, 0:00:00"

def orders (column : PyValue) : Batch Item :=
  ⟨"orders","orders/7-7",7,7,[7],0,
    [.change ⟨.insert,7,some "main.orders",some 1,some 0,none,[("v",column)]⟩],some 1⟩

def plainColumn : PyValue :=
  .list [.leaf (.other (.date 19723)),.dict [(.int 2,.leaf (.str "a\nb")),(.int 1,.leaf .none)]]

def datedColumn : PyValue := .dict [(.other (.date 19723),.leaf (.int 1))]

theorem returned_orders {column : PyValue} (typed : Typed column) : Returned (orders column) := by
  intro item member
  cases member with
  | head => exact ⟨by simp,by simpa using typed⟩
  | tail _ no => cases no

theorem plainKeys_orders {column : PyValue} (known : KnownKeys column) : PlainKeys (orders column) := by
  intro item member
  cases member with
  | head => simpa using known
  | tail _ no => cases no

theorem stdout_framing_orders : Succeeds iso (orders plainColumn) [] :=
  (stdout_framing_iff iso (orders plainColumn) (returned_orders (by decide)) []).mpr
    (plainKeys_orders (by decide))

/-- A batch that the database can return is not printed. -/
theorem dated_map_refused : Returned (orders datedColumn) ∧
    Ends (write (emit iso) (orders datedColumn)) [] (fun _ _ => False) (fun e _ => e = .typeError) := by
  refine ⟨returned_orders (by decide),?_⟩
  rw [write_eq]
  refine ends_mono (ends_emits (recordsOf (orders datedColumn)) []) ?_ ?_
  · rintro _ _ ⟨lines,all,_⟩
    have known := plainKeys_of_lines all _ List.mem_cons_self ("v",datedColumn) List.mem_cons_self
    exact absurd known (by decide)
  · rintro e _ ⟨raised,_⟩
    exact raised

end CdcStdout
