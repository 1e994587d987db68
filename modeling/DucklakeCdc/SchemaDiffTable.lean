import DucklakeCdc.PinnedTables
import Mathlib.Data.List.TakeWhile

/-!
The table that `schema_diff` asks about (`DMLConsumer._schema_diff_table`): the name the
consumer was constructed with, or, for a `table_id`, the one in its list entry.
-/
namespace CdcPins
open Programs CdcSetup CdcTransient NamedObjects
variable {κ ι ρ : Type}

def QualifiedName.text (name : QualifiedName) : String := name.schema ++ "." ++ name.table

/-- `table_name` of the consumer's list entry: the current name of its table. -/
def listedTable (tables : Tables) (entries : List PinnedEntry) (name : String) : Option String :=
  (named name entries).bind fun entry => (tables.nameOf entry.tableId).map QualifiedName.text

inductive Spelling where
  | bare (table : String) (plain : '.' ∉ table.toList)
  | qualified (schema table : String) (plain : '.' ∉ schema.toList ∧ '.' ∉ table.toList)

def Spelling.text : Spelling → String
  | .bare table _ => table
  | .qualified schema table _ => schema ++ "." ++ table

def Spelling.means : Spelling → QualifiedName
  | .bare table _ => ⟨"main",table⟩
  | .qualified schema table _ => ⟨schema,table⟩

inductive Given where
  | spelled (s : Spelling)
  | byId (tableId : Int)

def Given.Fits (given : Given) (c : DMLConsumer κ) : Prop :=
  match given with
  | .spelled s => c.table = some s.text
  | .byId tableId => c.tableId = some tableId

section
variable (ι) (c : DMLConsumer κ) (answers : Answers ρ) (tables : Tables) (tableId : Int)

def asked (pair : String × String) : QualifiedName := ⟨pair.1,pair.2⟩

/-- Whenever `_schema_diff_table` returns, the pinned table bears the name it returns. -/
def LooksAtPinned : Prop :=
  ∀ w : CdcLoop.World ι, Ends (schemaDiffTable c.toHighLevelConsumer answers) w
    (fun pair _ => tables.idOf (asked pair) = some tableId) (fun _ _ => True)

end

/-- A qualified name that the table bears again, a bare one in a schema that is called like
    the catalog, or the id of a table whose schema has no dot in its name. -/
def RightName (catalog : String) (before tables : Tables) (tableId : Int) : Given → Prop
  | .spelled (.bare table _) => tables.nameOf tableId = some ⟨catalog,table⟩
  | .spelled (.qualified _ _ _) => tables.nameOf tableId = before.nameOf tableId
  | .byId _ => ∀ current, tables.nameOf tableId = some current → '.' ∉ current.schema.toList

section
variable {x : HighLevelConsumer κ} {schema table : String}

theorem no_dot {text : List Char} (plain : '.' ∉ text) : ∀ c ∈ text, decide (c ≠ '.') = true := by
  intro c member
  have apart : c ≠ '.' := fun same => plain (same ▸ member)
  simpa using apart

theorem span_dot {before after : List Char} (plain : '.' ∉ before) :
    (before ++ '.' :: after).span (· ≠ '.') = (before,'.' :: after) := by
  rw [List.span_eq_takeWhile_dropWhile, List.takeWhile_append_of_pos (no_dot plain),
    List.dropWhile_append_of_pos (no_dot plain)]
  simp

theorem toList_dotted : (schema ++ "." ++ table).toList = schema.toList ++ '.' :: table.toList := by
  simp

theorem split_bare (plain : '.' ∉ table.toList) : splitTable x table = (x.catalog,table) := by
  rw [splitTable, List.span_eq_takeWhile_dropWhile, List.dropWhile_eq_nil_iff.mpr (no_dot plain)]

theorem split_dotted (plain : '.' ∉ schema.toList) :
    splitTable x (schema ++ "." ++ table) = (schema,table) := by
  rw [splitTable, toList_dotted, span_dot plain]
  simp

theorem split_plain : '.' ∉ (splitTable x (schema ++ "." ++ table)).1.toList := by
  rw [splitTable, toList_dotted, List.span_eq_takeWhile_dropWhile]
  split
  · rename_i before _ after same
    intro dot
    rw [String.toList_ofList, ← (Prod.mk.inj same).1] at dot
    simpa using List.mem_takeWhile_imp dot
  · rename_i before same
    have none_ := List.dropWhile_eq_nil_iff.mp (Prod.mk.inj same).2 '.' (by simp)
    simp at none_

theorem split_text_iff {current : QualifiedName} :
    asked (splitTable x current.text) = current ↔ '.' ∉ current.schema.toList := by
  constructor
  · intro back
    have plain : '.' ∉ (asked (splitTable x current.text)).schema.toList := split_plain
    rwa [back] at plain
  · intro plain
    rw [QualifiedName.text, split_dotted plain]
    rfl

end
section
variable {x : HighLevelConsumer κ} {answers : Answers ρ} {tableName : String}

/-- The name that `_schema_diff_table` splits. -/
def Told (x : HighLevelConsumer κ) (answers : Answers ρ) (tableName : String) : Prop :=
  x.table = some tableName ∨ x.table = none ∧ answers.listedTable = some tableName

theorem ends_pair (told : Told x answers tableName) (w : CdcLoop.World ι) :
    Ends (schemaDiffTable x answers) w (fun pair _ => pair = splitTable x tableName)
      (fun _ _ => True) := by
  unfold schemaDiffTable
  rcases told with given | ⟨none_,listed⟩
  · rw [given]
    exact rfl
  · rw [none_]
    dsimp only
    unfold ask
    simp only [ends_bind]
    apply CdcLoop.ends_step
    · exact fun _ => trivial
    · intro act rest _
      cases act.raises with
      | some e => trivial
      | none =>
        rw [listed]
        exact rfl

def answering : CdcLoop.World ι where
  log := SnapshotLog.bare 0
  db := { start := 0 }
  script := [{}]

theorem returns_pair (told : Told x answers tableName) :
    Ends (schemaDiffTable x answers) (answering : CdcLoop.World ι) (fun _ _ => True)
      (fun _ _ => False) := by
  unfold schemaDiffTable
  rcases told with given | ⟨none_,listed⟩
  · rw [given]
    exact trivial
  · rw [none_, listed]
    exact trivial

theorem looksAtPinned_iff {c : DMLConsumer κ} {tables : Tables} {tableId : Int}
    (told : Told c.toHighLevelConsumer answers tableName) :
    LooksAtPinned ι c answers tables tableId ↔
      tables.idOf (asked (splitTable c.toHighLevelConsumer tableName)) = some tableId := by
  constructor
  · intro looks
    have both := ends_and (looks answering)
      (ends_and (ends_pair told answering) (returns_pair told))
    rcases ends_cases both with ⟨_,_,_,right,same,_⟩ | ⟨_,_,_,_,_,no⟩
    · exact same ▸ right
    · exact no.elim
  · intro right w
    apply ends_mono (ends_pair told w) _ fun _ _ _ => trivial
    rintro pair _ rfl
    exact right

variable {c : DMLConsumer κ} {given : Given} {ext : Extension} {before tables : Tables}
  {tableId : Int} {entries : List PinnedEntry} {current : QualifiedName}

theorem right_iff (documented : ∀ s : Spelling, ext.resolve s.text = some s.means)
    (fits : given.Fits c) (created : ext.pinned before c.table c.tableId = some tableId)
    (stands : tables.nameOf tableId = some current) (listed : PinnedTo c.config.name tableId entries)
    (answered : answers.listedTable = listedTable tables entries c.config.name) :
    ∃ tableName, Told c.toHighLevelConsumer answers tableName ∧
      (asked (splitTable c.toHighLevelConsumer tableName) = current ↔
        RightName c.catalog before tables tableId given) := by
  cases given with
  | spelled s =>
    refine ⟨s.text,Or.inl fits,?_⟩
    cases s with
    | bare table plain =>
      rw [RightName, stands, Spelling.text, split_bare plain, Option.some.injEq, eq_comm]
      exact Iff.rfl
    | qualified schema table plain =>
      have named_ : before.nameOf tableId = some ⟨schema,table⟩ :=
        nameOf_of_pinned created fits (documented _)
      rw [RightName, stands, named_, Spelling.text, split_dotted plain.1, Option.some.injEq, eq_comm]
      exact Iff.rfl
  | byId own =>
    obtain ⟨entry,found,rfl⟩ := Option.map_eq_some_iff.mp listed
    have told : answers.listedTable = some current.text := by
      rw [answered, listedTable, found, Option.bind_some, stands, Option.map_some]
    refine ⟨current.text,Or.inr ⟨table_of_tableId fits,told⟩,split_text_iff.trans ?_⟩
    constructor
    · intro plain other same
      rw [stands] at same
      cases same
      exact plain
    · exact fun all => all current stands

/-- `schema_diff` asks about the pinned table, for every spelling, alias and history that
    leaves the table standing, exactly if the name it goes by is the right one. -/
theorem schema_diff_pinned_iff (ext : Extension)
    (documented : ∀ s : Spelling, ext.resolve s.text = some s.means) (c : DMLConsumer κ)
    (given : Given) (fits : given.Fits c) (before : Tables) (tableId : Int)
    (created : ext.pinned before c.table c.tableId = some tableId) (history : List TableEvent)
    (stands : (before.run history).nameOf tableId ≠ none) (entries : List PinnedEntry)
    (listed : PinnedTo c.config.name tableId entries) (answers : Answers ρ)
    (answered : answers.listedTable =
      listedTable (before.run history) entries c.config.name) :
    LooksAtPinned ι c answers (before.run history) tableId ↔
      RightName c.catalog before (before.run history) tableId given := by
  obtain ⟨current,bears⟩ := Option.ne_none_iff_exists'.mp stands
  obtain ⟨tableName,told,right⟩ := right_iff documented fits created bears listed answered
  rw [looksAtPinned_iff told, ← right, idOf_eq_some_iff, bears, Option.some.injEq, eq_comm]

theorem stands_of_renames {history : List TableEvent} {name : QualifiedName}
    (bore : before.nameOf tableId = some name)
    (renames : ∀ event ∈ history, ∀ gone, event ≠ .drop gone) :
    (before.run history).nameOf tableId ≠ none := by
  obtain ⟨current,bears⟩ := nameOf_run_present bore renames
  rw [bears]
  exact Option.some_ne_none current

end

theorem plain_documented (s : Spelling) : plainExtension.resolve s.text = some s.means := by
  cases s with
  | bare table plain =>
    have all := List.dropWhile_eq_nil_iff.mpr (no_dot plain)
    simp only [plainExtension, resolveText, Spelling.text, List.span_eq_takeWhile_dropWhile, all,
      Spelling.means]
  | qualified schema table plain =>
    simp only [plainExtension, resolveText, Spelling.text, toList_dotted, span_dot plain.1,
      Spelling.means, String.ofList_toList]

def ordersById : DMLConsumer Nat where
  platform := .plain
  config := ordersConfig .error
  owner := {}
  tableId := some 7
  isDml := rfl
  onePin := by decide

def ordersPinned : List PinnedEntry := [⟨createdEntry "orders",7⟩]

def renamedAway : List TableEvent := [.rename mainOrders ⟨"main","orders_old"⟩]

def listing (tables : Tables) : Answers Int :=
  { boundaryAnswers with listedTable := listedTable tables ordersPinned "orders" }

theorem renamedAway_stands : (ordersTables.run renamedAway).nameOf 7 ≠ none := by
  apply stands_of_renames (show ordersTables.nameOf 7 = some mainOrders from rfl)
  intro event member gone same
  rw [List.mem_singleton.mp member] at same
  cases same

theorem schema_diff_of_renamed :
    LooksAtPinned Int ordersById (listing (ordersTables.run renamedAway))
        (ordersTables.run renamedAway) 7 ↔
      RightName "lake" ordersTables (ordersTables.run renamedAway) 7 (.byId 7) :=
  schema_diff_pinned_iff plainExtension plain_documented ordersById (.byId 7) rfl ordersTables 7 rfl
    renamedAway renamedAway_stands ordersPinned rfl
    (listing (ordersTables.run renamedAway)) rfl

/-- Created as `orders`, the consumer looks for its table in a schema called `lake`. -/
theorem bare_name_looks_elsewhere : ¬ ∀ (ext : Extension) (c : DMLConsumer Nat) (given : Given)
    (before : Tables) (tableId : Int) (history : List TableEvent) (entries : List PinnedEntry)
    (answers : Answers Int), (∀ s : Spelling, ext.resolve s.text = some s.means) → given.Fits c →
    ext.pinned before c.table c.tableId = some tableId →
    (before.run history).nameOf tableId ≠ none → PinnedTo c.config.name tableId entries →
    answers.listedTable = listedTable (before.run history) entries c.config.name →
    LooksAtPinned Int c answers (before.run history) tableId := by
  intro all
  have looks := all plainExtension ordersByName (.spelled (.bare "orders" (by decide))) ordersTables
    7 [] ordersPinned (listing ordersTables) plain_documented rfl (by decide) (by decide) rfl rfl
  have right := (looksAtPinned_iff (Or.inl rfl)).mp looks
  rw [split_bare (by decide)] at right
  exact absurd right (by decide)

end CdcPins
