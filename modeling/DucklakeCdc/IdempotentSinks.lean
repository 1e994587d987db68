import DucklakeCdc.FleetLeases
import DucklakeCdc.KeyedStores

/-!
Sinks that are idempotent on the stable identity of a change (`types.Change`,
`types.SchemaChange`). At-least-once delivery makes such a sink exact: what is written
again after a crash, by another process or by a write that broke off, replaces itself.
-/
namespace CdcBatch

def Change.identity {V : Type} (change : Change V) : Int × Option Int × Option Int × ChangeType :=
  (change.snapshotId,change.tableId,change.rowid,change.kind)

def SchemaChange.identity (change : SchemaChange) :
    Int × DdlObjectKind × Option Int × DdlEventKind :=
  (change.snapshotId,change.objectKind,change.objectId,change.eventKind)

end CdcBatch

namespace CdcFleet
open Interleavings CdcBatch CdcRetry CdcLoop KeyedStores
variable {π ι : Type}

/-- What a process may put into the store behind its sink at `i`: the whole batch in a write
    that returns, any part of it in one that raises. -/
def Puts (i : Nat) : Event ι → List ι → Prop
  | .wrote j b none, items => items = if j = i then b.items else []
  | .wrote j b (some _), items => ∀ item ∈ items, j = i ∧ item ∈ b.items
  | _, items => items = []

inductive Fed {κ : Type} (puts : Event ι → List κ → Prop) : List (Event ι) → List κ → Prop where
  | nil : Fed puts [] []
  | cons {event : Event ι} {trace : List (Event ι)} {piece items : List κ}
      (put : puts event piece) (rest : Fed puts trace items) :
      Fed puts (event :: trace) (piece ++ items)

section
variable {κ : Type} {puts : Event ι → List κ → Prop} {event : Event ι} {trace : List (Event ι)}
  {items : List κ} {item : κ}

theorem fed_put (fed : Fed puts trace items) (member : item ∈ items) :
    ∃ event ∈ trace, ∃ piece, puts event piece ∧ item ∈ piece := by
  induction fed with
  | nil => cases member
  | cons put rest ih =>
    rcases List.mem_append.mp member with here | there
    · exact ⟨_,List.mem_cons_self,_,put,here⟩
    · obtain ⟨event,later,piece⟩ := ih there
      exact ⟨event,List.mem_cons_of_mem _ later,piece⟩

theorem fed_mem (fed : Fed puts trace items) (happened : event ∈ trace)
    (always : ∀ piece, puts event piece → item ∈ piece) : item ∈ items := by
  induction fed with
  | nil => cases happened
  | cons put rest ih =>
    rcases List.mem_cons.mp happened with rfl | later
    · exact List.mem_append_left _ (always _ put)
    · exact List.mem_append_right _ (ih later)

end

section
variable {i : Nat} {b : Batch ι} {event : Event ι} {trace : List (Event ι)}
  {piece items : List ι} {item : ι}

theorem puts_written (puts : Puts i event piece) (member : item ∈ piece) :
    ∃ b raised, event = .wrote i b raised ∧ item ∈ b.items := by
  unfold Puts at puts
  split at puts
  · next j b =>
    subst piece
    split at member
    · next same =>
      subst j
      exact ⟨b,none,rfl,member⟩
    · cases member
  · next j b e =>
    obtain ⟨rfl,inside⟩ := puts item member
    exact ⟨b,some e,rfl,inside⟩
  · subst piece
    cases member

theorem fed_written (fed : Fed (Puts i) trace items) (member : item ∈ items) :
    ∃ b raised, .wrote i b raised ∈ trace ∧ item ∈ b.items := by
  obtain ⟨event,happened,piece,put,here⟩ := fed_put fed member
  obtain ⟨b,raised,rfl,inside⟩ := puts_written put here
  exact ⟨b,raised,happened,inside⟩

theorem fed_returned (fed : Fed (Puts i) trace items) (returned : .wrote i b none ∈ trace)
    (inside : item ∈ b.items) : item ∈ items := by
  refine fed_mem fed returned fun piece put => ?_
  simp only [Puts, if_true] at put
  subst piece
  exact inside

end

section
variable [DecidableEq π]

theorem acknowledged_returned {crew : Crew π} {i : Nat} {trace : List (π × Event ι)} {row : Int × ι}
    (required : ∀ p, ∃ sink, (crew.sinks p)[i]? = some sink ∧ sink.required = true)
    (acknowledged : Acknowledged crew trace row) :
    ∃ b, .wrote i b none ∈ events trace ∧ row.2 ∈ b.items := by
  obtain ⟨p,b,before,earlier,_,_,inside,accepted⟩ := acknowledged
  obtain ⟨sink,at_,needed⟩ := required p
  have recent := accepted i sink at_ needed
  rw [DeliveryProtocol.sinceStart, List.mem_reverse] at recent
  have returned := List.mem_reverse.mp (List.takeWhile_subset _ recent)
  obtain ⟨⟨q,event⟩,entry,same⟩ := List.mem_filterMap.mp returned
  dsimp only at same
  split at same
  · obtain rfl := Option.some.inj same
    exact ⟨b,List.mem_map.mpr ⟨_,earlier.subset entry,rfl⟩,inside⟩
  · contradiction

/-- Whatever the processes of a fleet do, a store behind a required sink of each, keyed so
    that the key tells the log's rows apart, has each row the cursor has passed, and nothing
    but rows of the log after the first position. -/
theorem keyed_sink_exact {κ : Type} [DecidableEq κ] (key : ι → κ) (crew : Crew π)
    (log : SnapshotLog ι) (start : Int) (turns : List (π × Move ι)) (i : Nat) (items : List ι)
    (required : ∀ p, ∃ sink, (crew.sinks p)[i]? = some sink ∧ sink.required = true) :
    let s := run (does crew) (Fleet.initial log start) turns
    Set.InjOn key {item | ∃ n, (n,item) ∈ s.shared.log.rows} →
      Fed (Puts i) (events s.trace) items →
      (∀ row ∈ s.shared.log.rows, start < row.1 → row.1 ≤ s.shared.cursor →
        store key items (key row.2) = some row.2) ∧
      ∀ k item, store key items k = some item →
        key item = k ∧ ∃ n, start < n ∧ (n,item) ∈ s.shared.log.rows := by
  intro s apart fed
  have sound := fleet_sound crew log start turns
  have from_log : ∀ item ∈ items, ∃ n, start < n ∧ (n,item) ∈ s.shared.log.rows := by
    intro item member
    obtain ⟨b,raised,wrote,inside⟩ := fed_written fed member
    obtain ⟨⟨p,_⟩,entry,rfl⟩ := List.mem_map.mp wrote
    obtain ⟨c,from_,window⟩ := sound.written p i b raised entry
    rw [window.items] at inside
    obtain ⟨row,row_,rfl⟩ := List.mem_map.mp inside
    obtain ⟨row_,within⟩ := List.mem_filter.mp row_
    have := (SnapshotLog.inWindow_iff c b.endSnapshot row).mp within
    exact ⟨row.1,by omega,row_⟩
  have apart' : Set.InjOn key {item | item ∈ items} := by
    refine apart.mono fun item member => ?_
    obtain ⟨n,_,row⟩ := from_log item member
    exact ⟨n,row⟩
  refine ⟨?_,?_⟩
  · intro row member above below
    obtain ⟨b,returned,inside⟩ :=
      acknowledged_returned required (sound.covered row member above below)
    exact (store_eq_some_iff apart').mpr ⟨fed_returned fed returned inside,rfl⟩
  · intro k item kept
    obtain ⟨member,at_⟩ := (store_eq_some_iff apart').mp kept
    exact ⟨at_,from_log item member⟩

/-- Sinks of change rows that are idempotent on `(snapshot_id, table_id, rowid, kind)`. -/
theorem change_sink_exact {V : Type} (crew : Crew π) (log : SnapshotLog (Change V)) (start : Int)
    (turns : List (π × Move (Change V))) (i : Nat) (items : List (Change V))
    (required : ∀ p, ∃ sink, (crew.sinks p)[i]? = some sink ∧ sink.required = true) :
    let s := run (does crew) (Fleet.initial log start) turns
    Set.InjOn Change.identity {change | ∃ n, (n,change) ∈ s.shared.log.rows} →
      Fed (Puts i) (events s.trace) items →
      (∀ row ∈ s.shared.log.rows, start < row.1 → row.1 ≤ s.shared.cursor →
        store Change.identity items row.2.identity = some row.2) ∧
      ∀ k change, store Change.identity items k = some change →
        change.identity = k ∧ ∃ n, start < n ∧ (n,change) ∈ s.shared.log.rows :=
  keyed_sink_exact Change.identity crew log start turns i items required

theorem schema_change_sink_exact (crew : Crew π) (log : SnapshotLog SchemaChange) (start : Int)
    (turns : List (π × Move SchemaChange)) (i : Nat) (items : List SchemaChange)
    (required : ∀ p, ∃ sink, (crew.sinks p)[i]? = some sink ∧ sink.required = true) :
    let s := run (does crew) (Fleet.initial log start) turns
    Set.InjOn SchemaChange.identity {change | ∃ n, (n,change) ∈ s.shared.log.rows} →
      Fed (Puts i) (events s.trace) items →
      (∀ row ∈ s.shared.log.rows, start < row.1 → row.1 ≤ s.shared.cursor →
        store SchemaChange.identity items row.2.identity = some row.2) ∧
      ∀ k change, store SchemaChange.identity items k = some change →
        change.identity = k ∧ ∃ n, start < n ∧ (n,change) ∈ s.shared.log.rows :=
  keyed_sink_exact SchemaChange.identity crew log start turns i items required

end

def orderRow (n : Int) : Change Unit := ⟨.insert,n,none,some 1,some n,none,[]⟩

/-- A second process takes over after the first one's write broke off with the row in, and
    writes it again. -/
def takeover : List (Bool × Move (Change Unit)) :=
  [(false,.land [orderRow 1]),(false,.start),(false,.listen 1),
    (false,.write (some 1) 0 (some (.raised .otherException "connection reset"))),
    (true,.start),(true,.listen 1),(true,.write (some 2) 0 none),(true,.commit true none),
    (true,.land [orderRow 2])]

theorem takeover_exact :
    let s := run (does (pair false)) (Fleet.initial (.bare 0) 0) takeover
    let kept := store Change.identity [orderRow 1,orderRow 1]
    (∀ row ∈ s.shared.log.rows, 0 < row.1 → row.1 ≤ s.shared.cursor →
      kept row.2.identity = some row.2) ∧
    ∀ k change, kept k = some change →
      change.identity = k ∧ ∃ n, 0 < n ∧ (n,change) ∈ s.shared.log.rows := by
  refine change_sink_exact (pair false) (.bare 0) 0 takeover 0 [orderRow 1,orderRow 1]
    (fun _ => ⟨_,rfl,rfl⟩) ?_ ?_
  · rintro a ⟨n,a_⟩ b ⟨m,b_⟩ same
    have rows : (n,a) ∈ [(1,orderRow 1),(2,orderRow 2)] ∧ (m,b) ∈ [(1,orderRow 1),(2,orderRow 2)] :=
      ⟨a_,b_⟩
    simp only [List.mem_cons, Prod.mk.injEq, List.not_mem_nil, or_false] at rows
    obtain ⟨⟨_,rfl⟩ | ⟨_,rfl⟩,⟨_,rfl⟩ | ⟨_,rfl⟩⟩ := rows
    all_goals first | rfl | exact absurd same (by decide)
  · have quiet {event : Event (Change Unit)} {trace : List (Event (Change Unit))}
        {items : List (Change Unit)} (put : Puts 0 event []) (rest : Fed (Puts 0) trace items) :
        Fed (Puts 0) (event :: trace) items := Fed.cons put rest
    refine quiet (by exact rfl) (quiet (by exact rfl) (quiet (by exact rfl) ?_))
    refine Fed.cons (?_ : Puts 0 _ [orderRow 1]) (quiet (by exact rfl) (quiet (by exact rfl) ?_))
    · intro item member
      exact ⟨rfl,member⟩
    · refine Fed.cons (?_ : Puts 0 _ [orderRow 1]) (quiet (by exact rfl) (quiet (by exact rfl) .nil))
      rfl

end CdcFleet
