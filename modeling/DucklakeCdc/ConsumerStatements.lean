import DucklakeCdc.Operations
import DucklakeCdc.PinnedTables

/-!
What a consumer's object sends (`consumers/base.py`, `dml.py`, `ddl.py`): the calls of the
client that its methods make. All of them are about the consumer of its own name.
-/
namespace CdcOperations
open CdcBatch CdcRetry CdcSql CdcQuery CdcTransient CdcPins
variable {κ : Type}

structure DDLConsumer (κ : Type) extends HighLevelConsumer κ where
  schemas : Option (List String) := none
  tables : Option (List String) := none
  startAt : StartAt := .text "now"
  isDdl : kind = .ddl

inductive Sender (κ : Type) where
  | dml (c : DMLConsumer κ)
  | ddl (c : DDLConsumer κ)

namespace Sender

def base : Sender κ → HighLevelConsumer κ
  | .dml c => c.toHighLevelConsumer
  | .ddl c => c.toHighLevelConsumer

def name (c : Sender κ) : List Char := c.base.config.name.toList

def catalog (c : Sender κ) : List Char := c.base.catalog.toList

end Sender

/-- The calls that both kinds make; `coalesce` is dropped by a DDL consumer. -/
inductive Request where
  | create
  | list
  | forceRelease
  | drop
  | heartbeat
  | listen (o : ListenOptions) (coalesce : Option Bool)
  | read (maxSnapshots : Int) (startSnapshot endSnapshot : Option Int)
  | window (maxSnapshots : Int)
  | commit (snapshot : Int)

def position : StartAt → Position
  | .text start => .named start.toList
  | .snapshot n => .snapshot n

def texts (names : Option (List String)) : Option (List (List Char)) :=
  names.map fun names => names.map String.toList

def Sender.createConsumer : Sender κ → Operation
  | .dml c => .dmlConsumerCreate c.config.name.toList (c.table.map String.toList) c.tableId
      (texts c.changeTypes) (position c.startAt)
  | .ddl c => .ddlConsumerCreate c.config.name.toList (texts c.schemas) (texts c.tables)
      (position c.startAt)

def Sender.listenOp (o : ListenOptions) (coalesce : Option Bool) : Sender κ → Operation
  | .dml c => .dmlListen c.mode c.config.name.toList o coalesce
  | .ddl c => .ddlListen c.mode c.config.name.toList o

def Sender.readOp (maxSnapshots : Int) (startSnapshot endSnapshot : Option Int) :
    Sender κ → Operation
  | .dml c => .dmlRead c.mode c.config.name.toList ⟨maxSnapshots,startSnapshot,endSnapshot,none⟩
  | .ddl c => .ddlRead c.mode c.config.name.toList ⟨maxSnapshots,startSnapshot,endSnapshot,none⟩

def Sender.operation (c : Sender κ) : Request → Operation
  | .create => c.createConsumer
  | .list => .listConsumers
  | .forceRelease => .consumerForceRelease c.name
  | .drop => .consumerDrop c.name
  | .heartbeat => .consumerHeartbeat c.name
  | .listen o coalesce => c.listenOp o coalesce
  | .read maxSnapshots startSnapshot endSnapshot => c.readOp maxSnapshots startSnapshot endSnapshot
  | .window maxSnapshots => .window c.name maxSnapshots
  | .commit snapshot => .commit c.name snapshot

/-- Only a DML consumer has `schema_diff`. -/
inductive Sends : Sender κ → Operation → Prop where
  | request (c : Sender κ) (request : Request) : Sends c (c.operation request)
  | schemaDiff (c : DMLConsumer κ) (schemaName tableName : List Char)
      (fromSnapshot toSnapshot : Int) :
      Sends (.dml c) (.schemaDiff schemaName tableName fromSnapshot toSnapshot)

def Sender.commitWithinSql (c : Sender κ) (snapshot : Int) : List Char :=
  tableFunctionSql "cdc_commit".toList [.text c.catalog,.text c.name,.int snapshot] []

def Operation.consumer? : Operation → Option (List Char)
  | .dmlConsumerCreate name .. => some name
  | .ddlConsumerCreate name .. => some name
  | .consumerReset name _ => some name
  | .consumerDrop name => some name
  | .consumerForceRelease name => some name
  | .consumerHeartbeat name => some name
  | .dmlListen _ name .. => some name
  | .dmlRead _ name _ => some name
  | .ddlListen _ name _ => some name
  | .ddlRead _ name _ => some name
  | .window name _ => some name
  | .commit name _ => some name
  | _ => none

def Request.HalfWindow : Request → Prop
  | .read _ startSnapshot endSnapshot => startSnapshot.isNone ≠ endSnapshot.isNone
  | _ => False

theorem refused_request (c : Sender κ) (request : Request) :
    (c.operation request).Refused ↔ request.HalfWindow := by
  cases c with
  | dml c =>
    cases request with
    | create =>
      have onePin : (c.table.map String.toList).isNone ≠ c.tableId.isNone := by
        rw [Option.isNone_map]
        exact c.onePin
      exact ⟨fun both => absurd both onePin,False.elim⟩
    | _ => exact Iff.rfl
  | ddl c => cases request <;> exact Iff.rfl

theorem consumer_own {c : Sender κ} {op : Operation} (sends : Sends c op) :
    op.consumer? = none ∨ op.consumer? = some c.name := by
  cases sends with
  | schemaDiff c schemaName tableName fromSnapshot toSnapshot => exact Or.inl rfl
  | request c request =>
    cases request with
    | list => exact Or.inl rfl
    | _ => cases c <;> exact Or.inr rfl

theorem catalog_of_consumer {op : Operation} {name : List Char} (about : op.consumer? = some name)
    (catalog : List Char) : op.catalog? catalog = some catalog := by
  cases op <;> first | rfl | cases about

/-- A consumer's object is refused a call only for half a window. Any other statement of its
    reads back to the operation; it is about no consumer but its own, and an object of
    another name or catalog never sends it. The commit on the caller's connection has the
    same text as the commit on its own. -/
theorem own_statements (c : Sender κ) :
    (∀ request, (c.operation request).Refused ↔ request.HalfWindow) ∧
    (∀ op, Sends c op → ¬ op.Refused → ∃ sql, op.statement c.catalog = .ok sql ∧
      readStatement sql = some (op.catalog? c.catalog,op) ∧
      ∀ name, op.consumer? = some name → name = c.name ∧
        ∀ (c' : Sender κ) (op' : Operation), Sends c' op' → op'.statement c'.catalog = .ok sql →
          op' = op ∧ c'.name = c.name ∧ c'.catalog = c.catalog) ∧
    ∀ snapshot, (c.operation (.commit snapshot)).statement c.catalog =
      .ok (c.commitWithinSql snapshot) := by
  refine ⟨refused_request c,?_,fun _ => rfl⟩
  intro op sends accepted
  obtain ⟨sql,statement,read,unique⟩ := (statements_faithful c.catalog op).2 accepted
  refine ⟨sql,statement,read,?_⟩
  intro name about
  have own : name = c.name := by
    rcases consumer_own sends with silent | named
    · rw [silent] at about
      cases about
    · exact Option.some.inj (about.symm.trans named)
  refine ⟨own,?_⟩
  intro c' op' sends' same
  obtain ⟨rfl,catalogs⟩ := unique c'.catalog op' same
  rw [catalog_of_consumer about, catalog_of_consumer about] at catalogs
  have own' : name = c'.name := by
    rcases consumer_own sends' with silent | named
    · rw [silent] at about
      cases about
    · exact Option.some.inj (about.symm.trans named)
  exact ⟨rfl,own'.symm.trans own,Option.some.inj catalogs⟩

end CdcOperations
