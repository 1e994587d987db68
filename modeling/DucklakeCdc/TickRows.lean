import DucklakeCdc.TypedResults

/-!
From the rows of a tick listen or read to what a sink is told of each tick (`_build_tick_batch`
and the `to_dict` methods of `DMLTick` and `DDLTick`).
-/
namespace CdcTypedResults
open CdcBatch CdcChangeRows CdcDdlRows OrderedDicts Programs
variable {V : Type}

section
variable (cells : Cells V)

def dmlTickDict (tick : DMLTick) : Dict String V :=
  Dict.ofPairs [
    ("snapshot_id",cells.ofInt tick.snapshotId),
    ("snapshot_time",shown cells.toDriver (fun t => cells.ofStr (cells.isoformat t))
      tick.snapshotTime),
    ("schema_version",cells.ofInt tick.schemaVersion),
    ("table_ids",cells.ofItems (tick.tableIds.map cells.ofInt))]

def ddlTickDict (tick : DDLTick) : Dict String V :=
  Dict.ofPairs [
    ("snapshot_id",cells.ofInt tick.snapshotId),
    ("snapshot_time",shown cells.toDriver (fun t => cells.ofStr (cells.isoformat t))
      tick.snapshotTime),
    ("schema_version",cells.ofInt tick.schemaVersion)]

def dmlTicks (name : String) (connection : Option Nat) (now : Int) (rows : List (Dict String V)) :
    Option (Batch DMLTick) := do
  let typed ← rows.mapM (dmlTickRow cells)
  dmlTickBatch name connection now (typed.map TypedDMLTick.toDMLTickRow)

def ddlTicks (name : String) (connection : Option Nat) (now : Int) (rows : List (Dict String V)) :
    Option (Batch DDLTick) := do
  let typed ← rows.mapM (ddlTickRow cells)
  ddlTickBatch name connection now (typed.map TypedDDLTick.toDDLTickRow)

/-- A row as the extension documents it for ticks. -/
structure Documented (row : Dict String V) : Prop where
  integers : ∀ key ∈ ["snapshot_id","schema_version"], ∃ n, row.get? key = some (cells.ofInt n)
  bounds : ∀ key ∈ ["start_snapshot","end_snapshot"],
    Nullable cells.toDriver cells.ofInt (row.get? key)
  time : Nullable cells.toDriver cells.ofTime (row.get? "snapshot_time")

def idList (ids : List Int) : V := cells.ofItems (ids.map cells.ofInt)

/-- `table_ids` is a list of integers, or not there. -/
def Listed (row : Dict String V) : Prop :=
  Nullable cells.toDriver (idList cells) (row.get? "table_ids")

/-- A dictionary gives the row's snapshot and schema version back, and its time as a text. -/
structure GivesBack (row told : Dict String V) : Prop where
  snapshot : told.get? "snapshot_id" = row.get? "snapshot_id"
  version : told.get? "schema_version" = row.get? "schema_version"
  time : ∀ t, row.get? "snapshot_time" = some (cells.ofTime t) →
    told.get? "snapshot_time" = some (cells.ofStr (cells.isoformat t))
  noTime : cellOf cells.toDriver row "snapshot_time" = none →
    told.get? "snapshot_time" = some cells.null

def GivesTables (row told : Dict String V) : Prop :=
  told.get? "table_ids" =
    some ((cellOf cells.toDriver row "table_ids").getD (cells.ofItems []))

end

section
variable {cells : Cells V} {row : Dict String V}

theorem cell_nullable {α : Type} {of : α → V} {key : String}
    (present : ∀ a, cells.isNone (of a) = false)
    (typed : Nullable cells.toDriver of (row.get? key)) :
    cellOf cells.toDriver row key = none ∨
      ∃ a, row.get? key = some (of a) ∧ cellOf cells.toDriver row key = some (of a) := by
  unfold cellOf given
  rcases typed with missing | null | ⟨a,there⟩
  · exact Or.inl (by rw [missing]; rfl)
  · exact Or.inl (by rw [null, Option.filter_some, cells.isNone_null]; rfl)
  · exact Or.inr ⟨a,there,by rw [there, Option.filter_some, present a]; rfl⟩

theorem requiredInt_documented (documented : Documented cells row) (key : String)
    (known : key ∈ ["snapshot_id","schema_version"]) :
    ∃ n, requiredInt cells row key = some n ∧ row.get? key = some (cells.ofInt n) := by
  obtain ⟨n,there⟩ := documented.integers key known
  refine ⟨n,?_,there⟩
  rw [requiredInt, there, Option.bind_some, cells.int_ofInt]

theorem optionalInt_documented (documented : Documented cells row) (key : String)
    (known : key ∈ ["start_snapshot","end_snapshot"]) :
    ∃ bound, optionalInt cells row key = some bound := by
  rcases cell_nullable cells.isNone_ofInt (documented.bounds key known) with none_ | ⟨n,_,cell⟩
  · exact ⟨none,by rw [optionalInt, none_]; rfl⟩
  · refine ⟨some n,?_⟩
    rw [optionalInt, cell]
    exact congrArg (Option.map some) (cells.int_ofInt n)

theorem time_documented (documented : Documented cells row) :
    ∃ time, optionalTime cells row "snapshot_time" = some time ∧
      (∀ t, row.get? "snapshot_time" = some (cells.ofTime t) → time = some t) ∧
      (cellOf cells.toDriver row "snapshot_time" = none → time = none) := by
  rcases cell_nullable cells.isNone_ofTime documented.time with none_ | ⟨t,there,cell⟩
  · refine ⟨none,by rw [optionalTime, none_]; rfl,?_,fun _ => rfl⟩
    intro t there
    rw [cellOf, given, there, Option.filter_some, cells.isNone_ofTime t] at none_
    cases none_
  · refine ⟨some t,?_,?_,?_⟩
    · rw [optionalTime, cell]
      exact congrArg (Option.map some) (cells.datetime_ofTime t)
    · intro t' there'
      have same : cells.datetime (cells.ofTime t) = cells.datetime (cells.ofTime t') :=
        congrArg cells.datetime (Option.some.inj (there.symm.trans there'))
      rwa [cells.datetime_ofTime, cells.datetime_ofTime] at same
    · intro none_
      rw [cell] at none_
      cases none_

theorem intTuple_listed (listed : Listed cells row) :
    ∃ ids, intTuple cells row "table_ids" = some ids ∧
      idList cells ids = (cellOf cells.toDriver row "table_ids").getD (cells.ofItems []) := by
  have present : ∀ ids, cells.isNone (idList cells ids) = false := fun _ => cells.isNone_ofItems _
  rcases cell_nullable present listed with none_ | ⟨ids,_,cell⟩
  · exact ⟨[],by rw [intTuple, none_],by rw [none_]; rfl⟩
  · refine ⟨ids,?_,by rw [cell]; rfl⟩
    have each : (ids.map cells.ofInt).mapM cells.int = some ids := by
      rw [mapM_eq_some_iff, List.forall₂_map_left_iff, List.forall₂_same]
      exact fun n _ => cells.int_ofInt n
    simp only [intTuple, cell]
    rw [idList, cells.items_ofItems, Option.bind_some, each]

theorem tick_documented (documented : Documented cells row) : ∃ start stop n time version,
    optionalInt cells row "start_snapshot" = some start ∧
    optionalInt cells row "end_snapshot" = some stop ∧
    requiredInt cells row "snapshot_id" = some n ∧
    optionalTime cells row "snapshot_time" = some time ∧
    requiredInt cells row "schema_version" = some version ∧
    ∀ told : Dict String V, told.get? "snapshot_id" = some (cells.ofInt n) →
      told.get? "snapshot_time" = some (shown cells.toDriver (fun t =>
        cells.ofStr (cells.isoformat t)) time) →
      told.get? "schema_version" = some (cells.ofInt version) → GivesBack cells row told := by
  obtain ⟨start,readStart⟩ := optionalInt_documented documented "start_snapshot" (by decide)
  obtain ⟨stop,readStop⟩ := optionalInt_documented documented "end_snapshot" (by decide)
  obtain ⟨n,readId,hasId⟩ := requiredInt_documented documented "snapshot_id" (by decide)
  obtain ⟨version,readVersion,hasVersion⟩ :=
    requiredInt_documented documented "schema_version" (by decide)
  obtain ⟨time,readTime,isTime,noTime⟩ := time_documented documented
  refine ⟨start,stop,n,time,version,readStart,readStop,readId,readTime,readVersion,?_⟩
  intro told tellsId tellsTime tellsVersion
  constructor
  · rw [tellsId, hasId]
  · rw [tellsVersion, hasVersion]
  · intro t there
    rw [tellsTime, isTime t there]
    rfl
  · intro none_
    rw [tellsTime, noTime none_]
    rfl

theorem dmlTickDict_get? (tick : DMLTick) (key : String) : (dmlTickDict cells tick).get? key = [
    ("snapshot_id",cells.ofInt tick.snapshotId),
    ("snapshot_time",shown cells.toDriver (fun t => cells.ofStr (cells.isoformat t))
      tick.snapshotTime),
    ("schema_version",cells.ofInt tick.schemaVersion),
    ("table_ids",idList cells tick.tableIds)].lookup key := by
  rw [Dict.get?, dmlTickDict, entries_ofPairs (by simp)]
  rfl

theorem ddlTickDict_get? (tick : DDLTick) (key : String) : (ddlTickDict cells tick).get? key = [
    ("snapshot_id",cells.ofInt tick.snapshotId),
    ("snapshot_time",shown cells.toDriver (fun t => cells.ofStr (cells.isoformat t))
      tick.snapshotTime),
    ("schema_version",cells.ofInt tick.schemaVersion)].lookup key := by
  rw [Dict.get?, ddlTickDict, entries_ofPairs (by simp)]

theorem ddlTick_documented (documented : Documented cells row) :
    ∃ typed, ddlTickRow cells row = some typed ∧
      GivesBack cells row (ddlTickDict cells typed.toRow.item) := by
  obtain ⟨start,stop,n,time,version,readStart,readStop,readId,readTime,readVersion,back⟩ :=
    tick_documented documented
  refine ⟨_,by
    rw [ddlTickRow, readStart, readStop, readId, readTime, readVersion]
    rfl,?_⟩
  apply back
  · exact ddlTickDict_get? _ _
  · rw [ddlTickDict_get?]
    rfl
  · rw [ddlTickDict_get?]
    rfl

theorem dmlTick_documented (documented : Documented cells row) (listed : Listed cells row) :
    ∃ typed, dmlTickRow cells row = some typed ∧
      GivesBack cells row (dmlTickDict cells typed.toRow.item) ∧
      GivesTables cells row (dmlTickDict cells typed.toRow.item) := by
  obtain ⟨start,stop,n,time,version,readStart,readStop,readId,readTime,readVersion,back⟩ :=
    tick_documented documented
  obtain ⟨ids,readIds,tables⟩ := intTuple_listed listed
  refine ⟨_,by
    rw [dmlTickRow, readStart, readStop, readId, readTime, readVersion, readIds]
    rfl,?_,?_⟩
  · apply back
    · exact dmlTickDict_get? _ _
    · rw [dmlTickDict_get?]
      rfl
    · rw [dmlTickDict_get?]
      rfl
  · rw [GivesTables, ← tables, dmlTickDict_get?]
    rfl

end

section
variable {cells : Cells V} {rows : List (Dict String V)}

theorem batch_of_rows {ρ ι : Type} (f : Dict String V → Option ρ) (toRow : ρ → Row ι)
    (fine : Dict String V → ι → Prop) (name : String) (connection : Option Nat) (now : Int)
    (some_ : rows ≠ [])
    (each : ∀ row ∈ rows, ∃ typed, f row = some typed ∧ fine row (toRow typed).item) :
    ∃ typed batch, rows.mapM f = some typed ∧
      buildBatch name connection now (typed.map toRow) = some batch ∧
      List.Forall₂ fine rows batch.items := by
  obtain ⟨typed,all⟩ := exists_forall₂ each
  have read : rows.mapM f = some typed := mapM_eq_some_iff.mpr (all.imp fun _ _ both => both.1)
  have rest : typed.map toRow ≠ [] := by
    intro empty
    rw [List.map_eq_nil_iff] at empty
    rw [empty] at all
    cases all
    exact some_ rfl
  obtain ⟨batch,built⟩ := build_ne_none name connection now rest
  refine ⟨typed,batch,read,built,?_⟩
  rw [(items_of_build built).1, List.map_map, List.forall₂_map_right_iff]
  exact all.imp fun _ _ both => both.2

/-- In tick mode, which is the default, nothing of the rows is lost: every tick of the batch
    tells the snapshot, the time and the schema version of its row, and of a DML row the
    tables, in the order of the rows. -/
theorem ticks_give_back (cells : Cells V) (name : String) (connection : Option Nat) (now : Int)
    (rows : List (Dict String V)) (some_ : rows ≠ [])
    (documented : ∀ row ∈ rows, Documented cells row) :
    (∃ batch, ddlTicks cells name connection now rows = some batch ∧
      List.Forall₂ (fun row tick => GivesBack cells row (ddlTickDict cells tick)) rows
        batch.items) ∧
    ((∀ row ∈ rows, Listed cells row) →
      ∃ batch, dmlTicks cells name connection now rows = some batch ∧
        List.Forall₂ (fun row tick => GivesBack cells row (dmlTickDict cells tick) ∧
          GivesTables cells row (dmlTickDict cells tick)) rows batch.items) := by
  constructor
  · obtain ⟨typed,batch,read,built,each⟩ := batch_of_rows (ddlTickRow cells)
      (fun typed => typed.toDDLTickRow.toRow)
      (fun row tick => GivesBack cells row (ddlTickDict cells tick)) name connection now some_
      fun row member => ddlTick_documented (documented row member)
    refine ⟨batch,?_,each⟩
    rw [ddlTicks, read, Option.bind_eq_bind, Option.bind_some, ddlTickBatch, List.map_map]
    exact built
  · intro listed
    obtain ⟨typed,batch,read,built,each⟩ := batch_of_rows (dmlTickRow cells)
      (fun typed => typed.toDMLTickRow.toRow)
      (fun row tick => GivesBack cells row (dmlTickDict cells tick) ∧
        GivesTables cells row (dmlTickDict cells tick)) name connection now some_
      fun row member => dmlTick_documented (documented row member) (listed row member)
    refine ⟨batch,?_,each⟩
    rw [dmlTicks, read, Option.bind_eq_bind, Option.bind_some, dmlTickBatch, List.map_map]
    exact built

end

/-! Ticks of a window, one of them without its list of tables -/

def tickOf (snapshot : Int) (tables : Cell) : Dict String Cell :=
  Dict.ofPairs [("snapshot_id",.int snapshot),("snapshot_time",.null),("schema_version",.int 2),
    ("table_ids",tables)]

theorem get?_tickOf (snapshot : Int) (tables : Cell) (key : String) :
    (tickOf snapshot tables).get? key = [("snapshot_id",.int snapshot),("snapshot_time",.null),
      ("schema_version",.int 2),("table_ids",tables)].lookup key := by
  rw [Dict.get?, tickOf, entries_ofPairs (by simp)]

theorem documented_tickOf (snapshot : Int) (tables : Cell) :
    Documented plainCells (tickOf snapshot tables) where
  integers key asked := by
    rw [get?_tickOf]
    simp only [List.mem_cons, List.not_mem_nil, or_false] at asked
    rcases asked with rfl | rfl
    · exact ⟨snapshot,rfl⟩
    · exact ⟨2,rfl⟩
  bounds key asked := by
    rw [get?_tickOf]
    simp only [List.mem_cons, List.not_mem_nil, or_false] at asked
    rcases asked with rfl | rfl <;> exact Or.inl rfl
  time := by
    rw [get?_tickOf]
    exact Or.inr (Or.inl rfl)

theorem listed_ids (snapshot : Int) (ids : List Int) :
    Listed plainCells (tickOf snapshot (idList plainCells ids)) := by
  rw [Listed, get?_tickOf]
  exact Or.inr (Or.inr ⟨ids,rfl⟩)

theorem listed_null (snapshot : Int) : Listed plainCells (tickOf snapshot .null) := by
  rw [Listed, get?_tickOf]
  exact Or.inr (Or.inl rfl)

theorem ticks_of_window : ∃ batch, dmlTicks plainCells "orders" none 0
      [tickOf 4 (idList plainCells [7]),tickOf 5 .null] = some batch ∧
    List.Forall₂ (fun row tick => GivesBack plainCells row (dmlTickDict plainCells tick) ∧
      GivesTables plainCells row (dmlTickDict plainCells tick))
      [tickOf 4 (idList plainCells [7]),tickOf 5 .null] batch.items := by
  refine (ticks_give_back plainCells "orders" none 0 _ (List.cons_ne_nil _ _) ?_).2 ?_
  · intro row member
    rcases List.mem_cons.mp member with rfl | last
    · exact documented_tickOf 4 _
    · exact List.mem_singleton.mp last ▸ documented_tickOf 5 _
  · intro row member
    rcases List.mem_cons.mp member with rfl | last
    · exact listed_ids 4 [7]
    · exact List.mem_singleton.mp last ▸ listed_null 5

end CdcTypedResults
