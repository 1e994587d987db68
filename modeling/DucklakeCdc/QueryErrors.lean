import DucklakeCdc.OrderedDicts
import DucklakeCdc.SqlRendering
import DucklakeCdc.TransientLeaks

/-!
Failures of the database in the calls of `CDCClient` (`client/client.py`). `execute` runs
inside the `try` of `_query_on_lake`, the rows are fetched after it, in `_CDCResult.list`.
-/
namespace CdcQuery
open Programs CdcRetry CdcSetup CdcSql CdcTransient OrderedDicts
variable {V : Type}

structure Cursor (V : Type) where
  columns : List String
  fetchall : Except Exc (List (List V))

abbrev Connection (V : Type) := List Char → Except Exc (Cursor V)

def queryOnLake (connection : Connection V) (sql : List Char) : Except Exc (Cursor V) :=
  match connection sql with
  | .error e => .error (queryError e)
  | .ok cursor => .ok cursor

def Cursor.list (cursor : Cursor V) : Except Exc (List (Dict String V)) := do
  let rows ← cursor.fetchall
  pure (rows.map fun row => Dict.ofPairs (cursor.columns.zip row))

def rowsError (n : Nat) : Exc :=
  .raised .duckLakeQueryError ("expected exactly one row, got " ++ toString n)

def columnsError (n : Nat) : Exc :=
  .raised .duckLakeQueryError ("expected exactly one column, got " ++ toString n)

def Cursor.one (cursor : Cursor V) : Except Exc (Dict String V) := do
  let rows ← cursor.list
  match rows with
  | [row] => pure row
  | rows => throw (rowsError rows.length)

def Cursor.scalar (cursor : Cursor V) : Except Exc V := do
  let row ← cursor.one
  match row.entries with
  | [(_, value)] => pure value
  | entries => throw (columnsError entries.length)

inductive Method where
  | version
  | cdcDmlConsumerCreate
  | cdcDdlConsumerCreate
  | cdcConsumerReset
  | cdcConsumerDrop
  | cdcConsumerForceRelease
  | cdcConsumerHeartbeat
  | cdcListConsumers
  | cdcDmlChangesListen
  | cdcDmlChangesRead
  | cdcDmlTicksListen
  | cdcDmlTicksRead
  | cdcDmlTicksQuery
  | cdcDmlChangesQuery
  | cdcDdlChangesListen
  | cdcDdlChangesRead
  | cdcDdlTicksListen
  | cdcDdlTicksRead
  | cdcDdlTicksQuery
  | cdcSchemaDiff
  | cdcWindow
  | cdcCommit
  deriving DecidableEq, Repr

def Method.functionName : Method → String
  | .version => "cdc_version"
  | .cdcDmlConsumerCreate => "cdc_dml_consumer_create"
  | .cdcDdlConsumerCreate => "cdc_ddl_consumer_create"
  | .cdcConsumerReset => "cdc_consumer_reset"
  | .cdcConsumerDrop => "cdc_consumer_drop"
  | .cdcConsumerForceRelease => "cdc_consumer_force_release"
  | .cdcConsumerHeartbeat => "cdc_consumer_heartbeat"
  | .cdcListConsumers => "cdc_list_consumers"
  | .cdcDmlChangesListen => "cdc_dml_changes_listen"
  | .cdcDmlChangesRead => "cdc_dml_changes_read"
  | .cdcDmlTicksListen => "cdc_dml_ticks_listen"
  | .cdcDmlTicksRead => "cdc_dml_ticks_read"
  | .cdcDmlTicksQuery => "cdc_dml_ticks_query"
  | .cdcDmlChangesQuery => "cdc_dml_changes_query"
  | .cdcDdlChangesListen => "cdc_ddl_changes_listen"
  | .cdcDdlChangesRead => "cdc_ddl_changes_read"
  | .cdcDdlTicksListen => "cdc_ddl_ticks_listen"
  | .cdcDdlTicksRead => "cdc_ddl_ticks_read"
  | .cdcDdlTicksQuery => "cdc_ddl_ticks_query"
  | .cdcSchemaDiff => "cdc_schema_diff"
  | .cdcWindow => "cdc_window"
  | .cdcCommit => "cdc_commit"

def scalarFunctionSql (functionName : String) : List Char :=
  ("SELECT " ++ functionName ++ "()").toList

def Method.statement (m : Method) (args : List SqlValue)
    (named : List (List Char × SqlValue)) : List Char :=
  match m with
  | .version => scalarFunctionSql m.functionName
  | _ => tableFunctionSql m.functionName.toList args named

inductive Answer (V : Type) where
  | rows (rows : List (Dict String V))
  | row (row : Dict String V)
  | value (value : V)

def Method.read (m : Method) (cursor : Cursor V) : Except Exc (Answer V) :=
  match m with
  | .version => Answer.value <$> cursor.scalar
  | .cdcWindow | .cdcCommit => Answer.row <$> cursor.one
  | _ => Answer.rows <$> cursor.list

def Method.call (m : Method) (connection : Connection V) (args : List SqlValue)
    (named : List (List Char × SqlValue)) : Except Exc (Answer V) := do
  let cursor ← queryOnLake connection (m.statement args named)
  m.read cursor

structure DatabaseError where
  exc : Exc
  foreign : exc.cls = .otherException

inductive Stage where
  | execute | fetch
  deriving DecidableEq, Repr

/-- The connection reports `e` at this stage of the statement. -/
def FailsAt (connection : Connection V) (sql : List Char) (e : Exc) : Stage → Prop
  | .execute => connection sql = .error e
  | .fetch => ∃ cursor, connection sql = .ok cursor ∧ cursor.fetchall = .error e

def causes : Exc → List Exc
  | .raised cls message => [.raised cls message]
  | .caused cls message cause => .caused cls message cause :: causes cause

def OneFace {α : Type} (e : Exc) (result : Except Exc α) : Prop :=
  ∃ x, result = .error x ∧ x.cls = .duckLakeQueryError ∧ e ∈ causes x

/-- The exception of a method whose statement fails with `e`. -/
def face (e : Exc) : Stage → Exc
  | .execute => queryError e
  | .fetch => e

theorem mem_causes (e : Exc) : e ∈ causes e := by
  cases e <;> exact List.mem_cons_self

theorem read_fails (m : Method) {cursor : Cursor V} {e : Exc} (fails : cursor.fetchall = .error e) :
    m.read cursor = .error e := by
  have list : cursor.list = .error e := by rw [Cursor.list, fails]; rfl
  have one : cursor.one = .error e := by rw [Cursor.one, list]; rfl
  have scalar : cursor.scalar = .error e := by rw [Cursor.scalar, one]; rfl
  cases m <;> simp only [Method.read, list, one, scalar] <;> rfl

theorem call_fails {connection : Connection V} {m : Method} {args : List SqlValue}
    {named : List (List Char × SqlValue)} {e : Exc} {stage : Stage}
    (fails : FailsAt connection (m.statement args named) e stage) :
    m.call connection args named = .error (face e stage) := by
  cases stage with
  | execute =>
    have refused : connection (m.statement args named) = .error e := fails
    rw [Method.call, queryOnLake, refused]
    rfl
  | fetch =>
    obtain ⟨cursor,executed,refused⟩ := fails
    rw [Method.call, queryOnLake, executed]
    exact read_fails m refused

theorem query_error (e : DatabaseError) :
    queryError e.exc = .caused .duckLakeQueryError "DuckLake CDC query failed" e.exc :=
  if_pos (by rw [Exc.isException, e.foreign])

theorem not_query (e : DatabaseError) : isQueryError e.exc = false := by
  rw [isQueryError, e.foreign]
  rfl

theorem face_query (e : DatabaseError) (stage : Stage) :
    isQueryError (face e.exc stage) = true ↔ stage = .execute := by
  cases stage with
  | execute =>
    rw [face, query_error]
    exact ⟨fun _ => rfl,fun _ => rfl⟩
  | fetch =>
    rw [face, not_query e]
    exact ⟨fun no => (by cases no),fun no => (by cases no)⟩

theorem oneFace_iff {connection : Connection V} {m : Method} {args : List SqlValue}
    {named : List (List Char × SqlValue)} {e : DatabaseError} {stage : Stage}
    (fails : FailsAt connection (m.statement args named) e.exc stage) :
    OneFace e.exc (m.call connection args named) ↔ stage = .execute := by
  rw [call_fails fails, ← face_query e]
  constructor
  · rintro ⟨x,same,cls,_⟩
    obtain rfl := Except.error.inj same
    simp [isQueryError, cls]
  · intro query
    refine ⟨_,rfl,by simpa [isQueryError] using query,?_⟩
    cases stage with
    | execute =>
      rw [face, query_error]
      exact List.mem_cons_of_mem _ (mem_causes e.exc)
    | fetch => exact mem_causes e.exc

theorem contains_face {consumerName needle : String} {e : DatabaseError} {stage : Stage}
    (answer : consumerErrorContains consumerName needle e.exc = true) :
    consumerErrorContains consumerName needle (face e.exc stage) = true := by
  cases stage with
  | execute => rw [face, query_error, consumerErrorContains, answer, Bool.or_true]
  | fetch => exact answer

section
variable {p : Platform} {c : Config} {s : Registry} {e : DatabaseError} {stage : Stage}

/-- The next catalog call is answered with `e` at the stage. -/
def Answered (s : Registry) (e : DatabaseError) (stage : Stage) : Prop :=
  s.moment.fault = some (face e.exc stage)

theorem ends_failing_call {α : Type} {call : CatalogCall}
    {effect : Catalog → Except Exc (α × Catalog)} (answers : Answered s e stage) :
    Ends (callCatalog call effect) s (fun _ _ => False)
      (fun x t => x = face e.exc stage ∧ t = s.arrive call) := by
  apply ends_callCatalog
  · intro x fault
    exact ⟨Option.some.inj (fault.symm.trans answers),rfl⟩
  · intro x clean _
    rw [Answered, clean] at answers
    contradiction
  · intro a entries clean _
    rw [Answered, clean] at answers
    contradiction

theorem ends_tryCreate (answers : Answered s e stage)
    (taken : isDuplicateConsumerError e.exc c.name = true) :
    Ends (tryCreate p c) s (fun created _ => created = false ∧ stage = .execute)
      (fun x _ => x = e.exc ∧ stage ≠ .execute) := by
  rw [tryCreate, ends_tryExcept, ends_bind]
  apply ends_mono (ends_failing_call answers) (fun _ _ no => no.elim)
  rintro x t ⟨rfl,_⟩
  have duplicate : isDuplicateConsumerError (face e.exc stage) c.name = true := contains_face taken
  cases stage with
  | execute =>
    rw [if_pos ((face_query e .execute).mpr rfl), duplicate]
    exact ⟨rfl,rfl⟩
  | fetch =>
    rw [face, not_query e, if_neg Bool.false_ne_true]
    exact ⟨rfl,Stage.noConfusion⟩

theorem ends_ignoreMissing {call : CatalogCall} {effect : Catalog → Except Exc (Unit × Catalog)}
    (answers : Answered s e stage) (missing : isMissingConsumerError e.exc c.name = true) :
    Ends (ignoreMissing c.name (callCatalog call effect)) s
      (fun _ t => t = s.arrive call ∧ stage = .execute) (fun _ _ => stage ≠ .execute) := by
  rw [ignoreMissing, ends_tryExcept]
  apply ends_mono (ends_failing_call answers) (fun _ _ no => no.elim)
  rintro x t ⟨rfl,rfl⟩
  have gone : isMissingConsumerError (face e.exc stage) c.name = true := contains_face missing
  cases stage with
  | execute =>
    rw [if_pos ((face_query e .execute).mpr rfl), gone]
    exact ⟨rfl,rfl⟩
  | fetch =>
    rw [face, not_query e, if_neg Bool.false_ne_true]
    exact Stage.noConfusion

theorem use_succeeds_iff (use : c.onExists = .use) (answers : Answered s e stage)
    (taken : isDuplicateConsumerError e.exc c.name = true) :
    Ends (setupConsumer p c) s (fun _ _ => True) (fun _ _ => False) ↔ stage = .execute := by
  apply ends_iff
  simp only [setupConsumer, use, ends_bind]
  apply ends_mono (ends_tryCreate answers taken)
  · rintro created t ⟨rfl,executed⟩
    exact ⟨fun _ => executed,fun _ => trivial⟩
  · rintro x t ⟨_,fetched⟩
    exact ⟨False.elim,fetched⟩

theorem error_refuses_iff (error : c.onExists = .error) (answers : Answered s e stage)
    (taken : isDuplicateConsumerError e.exc c.name = true) :
    Ends (setupConsumer p c) s (fun _ _ => False) (fun x _ => x = existsError p c) ↔
      stage = .execute := by
  apply ends_iff
  simp only [setupConsumer, error, ends_bind]
  apply ends_mono (ends_tryCreate answers taken)
  · rintro created t ⟨rfl,executed⟩
    exact ⟨fun _ => executed,fun _ => rfl⟩
  · rintro x t ⟨rfl,fetched⟩
    have other : e.exc ≠ existsError p c := by
      intro same
      have cls := e.foreign
      rw [same] at cls
      contradiction
    exact ⟨fun same => absurd same other,fun executed => absurd executed fetched⟩

/-- `replace` finds no consumer of the name: the release and the drop are answered so, and
    nothing stands in the way of the create after them. -/
structure NothingToReplace (c : Config) (e : DatabaseError) (stage : Stage) (s : Registry) :
    Prop where
  release : Answered s e stage
  drop : Answered (s.arrive (.forceRelease c.name)) e stage
  missing : isMissingConsumerError e.exc c.name = true
  clean : ((s.arrive (.forceRelease c.name)).arrive (.drop c.name)).moment.fault = none
  free : (((s.arrive (.forceRelease c.name)).arrive (.drop c.name)).arrive
    (.create c.name)).entries.has c.name = false

theorem ends_create (clean : s.moment.fault = none)
    (free : (s.arrive (.create c.name)).entries.has c.name = false) :
    Ends (cdcConsumerCreate p c.name) s (fun _ _ => True) (fun _ _ => False) := by
  apply ends_callCatalog
  · intro x fault
    rw [clean] at fault
    contradiction
  · intro x _ refused
    rw [if_neg (by simp [free])] at refused
    contradiction
  · exact fun _ _ _ _ => trivial

theorem replace_succeeds_iff (replace : c.onExists = .replace)
    (nothing : NothingToReplace c e stage s) :
    Ends (setupConsumer p c) s (fun _ _ => True) (fun _ _ => False) ↔ stage = .execute := by
  apply ends_iff
  simp only [setupConsumer, replace, dropConsumerIfExists, ends_bind]
  have raised : ∀ (x : Exc) (t : Registry), stage ≠ .execute → (False ↔ stage = .execute) :=
    fun _ _ fetched => ⟨False.elim,fetched⟩
  apply ends_mono (ends_ignoreMissing nothing.release nothing.missing) _ raised
  rintro _ t ⟨rfl,_⟩
  apply ends_mono (ends_ignoreMissing nothing.drop nothing.missing) _ raised
  rintro _ t ⟨rfl,executed⟩
  apply ends_mono (ends_create nothing.clean nothing.free)
  · exact fun _ _ _ => ⟨fun _ => executed,fun _ => trivial⟩
  · exact fun _ _ no => no.elim

end

/-- A failure of the database has the one face, and setup recognises what the extension
    answers by it, exactly where it is reported by `execute`: every method, every name and
    all three policies. -/
theorem one_face_iff (stage : Stage) (e : DatabaseError) :
    (∀ (m : Method) (connection : Connection V) (args : List SqlValue)
      (named : List (List Char × SqlValue)),
      FailsAt connection (m.statement args named) e.exc stage →
        (OneFace e.exc (m.call connection args named) ↔ stage = .execute)) ∧
    ∀ (p : Platform) (c : Config) (s : Registry),
      (c.onExists = .use → Answered s e stage →
        isDuplicateConsumerError e.exc c.name = true →
        (Ends (setupConsumer p c) s (fun _ _ => True) (fun _ _ => False) ↔ stage = .execute)) ∧
      (c.onExists = .error → Answered s e stage →
        isDuplicateConsumerError e.exc c.name = true →
        (Ends (setupConsumer p c) s (fun _ _ => False) (fun x _ => x = existsError p c) ↔
          stage = .execute)) ∧
      (c.onExists = .replace → NothingToReplace c e stage s →
        (Ends (setupConsumer p c) s (fun _ _ => True) (fun _ _ => False) ↔ stage = .execute)) :=
  ⟨fun _ _ _ _ fails => oneFace_iff fails,fun _ _ _ => ⟨use_succeeds_iff,error_refuses_iff,
    replace_succeeds_iff⟩⟩

def ordersTaken : DatabaseError where
  exc := .raised .otherException "consumer 'orders' already exists"
  foreign := rfl

theorem ordersTaken_duplicate : isDuplicateConsumerError ordersTaken.exc "orders" = true := by
  decide +kernel

def refusing (e : DatabaseError) : Connection Unit := fun _ => .error e.exc

def breaking (e : DatabaseError) : Connection Unit := fun _ => .ok ⟨[],.error e.exc⟩

theorem executed_create_one_face :
    OneFace ordersTaken.exc (Method.cdcDmlConsumerCreate.call (refusing ordersTaken) [] []) :=
  ((one_face_iff .execute ordersTaken).1 .cdcDmlConsumerCreate (refusing ordersTaken) [] []
    rfl).mpr rfl

def takenInFetch : Registry where
  entries := []
  moments _ := { fault := some (face ordersTaken.exc .fetch) }

theorem fetched_answer_unrecognised :
    (¬ ∀ (stage : Stage) (e : DatabaseError) (m : Method) (connection : Connection Unit)
      (args : List SqlValue) (named : List (List Char × SqlValue)),
      FailsAt connection (m.statement args named) e.exc stage →
        OneFace e.exc (m.call connection args named)) ∧
    ¬ ∀ (stage : Stage) (e : DatabaseError) (p : Platform) (c : Config) (s : Registry),
      c.onExists = .use → Answered s e stage → isDuplicateConsumerError e.exc c.name = true →
        Ends (setupConsumer p c) s (fun _ _ => True) (fun _ _ => False) := by
  constructor
  · intro all
    have fails : FailsAt (breaking ordersTaken) (Method.cdcListConsumers.statement [] [])
        ordersTaken.exc .fetch := ⟨⟨[],.error ordersTaken.exc⟩,rfl,rfl⟩
    have fetched := (oneFace_iff fails).mp (all _ _ _ _ _ _ fails)
    contradiction
  · intro all
    have answers : Answered takenInFetch ordersTaken .fetch := rfl
    have fetched := (use_succeeds_iff (p := .plain) (c := ordersConfig .use) rfl answers
      ordersTaken_duplicate).mp (all _ _ _ _ _ rfl answers ordersTaken_duplicate)
    contradiction

end CdcQuery
