import DucklakeCdc.PinnedTables

/-!
Successors (`DMLConsumer.successor`): a new consumer that starts where the pinned table of
another changed its shape.
-/
namespace CdcPins
open Programs CdcRetry CdcSetup CdcTransient NamedObjects
variable {κ ι ρ : Type}

structure SuccessorArguments (κ : Type) where
  name : String
  startAt : Option StartAt := none
  onExists : OnExists := .error
  leasePolicy : Option LeasePolicy := none
  leaseWaitTimeout : Option ℚ := none
  sinks : List κ := []

section
variable (c : DMLConsumer κ) (answers : Answers ρ) (opened : Bool) (a : SuccessorArguments κ)

def notStoppedError : Exc := .raised .runtimeError
  ("consumer " ++ pyRepr c.platform c.config.name ++ " is not stopped at a schema boundary")

/-- Where the successor starts: where the caller says, or at the boundary of the next window. -/
def successorStart : CdcLoop.Client ι StartAt :=
  match a.startAt with
  | some startAt => pure startAt
  | none => do
    let next ← window c.toHighLevelConsumer answers opened
    match next.terminal, next.terminalAtSnapshot with
    | true, some boundary => pure (.snapshot boundary)
    | _, _ => throwExc (notStoppedError c)

/-- The call of the constructor in `successor`: the table goes on as this object has it. -/
def successorArguments (startAt : StartAt) : Arguments κ where
  platform := c.platform
  lakeAlias := c.lakeAlias
  name := a.name
  table := c.table
  tableId := c.tableId
  changeTypes := c.changeTypes.getD []
  startAt := startAt
  mode := c.mode
  onExists := a.onExists
  leasePolicy := a.leasePolicy.getD c.config.leasePolicy
  leaseWaitTimeout := a.leaseWaitTimeout.getD c.config.leaseWaitTimeout
  sinks := a.sinks
  wiring := if c.owner.wiring = .connection then .connection else .derives
  retryPolicy := c.owner.retryPolicy

def successor : CdcLoop.Client ι (DMLConsumer κ) := do
  CdcLoop.requireOpen (c.inLoop opened)
  let startAt ← successorStart c answers opened a
  match DMLConsumer.init (successorArguments c a startAt) with
  | .error e => throwExc e
  | .ok heir => pure heir

end

section
variable {c : DMLConsumer κ} {answers : Answers ρ} {opened : Bool} {a : SuccessorArguments κ}
  {heir : DMLConsumer κ} {ext : Extension} {tables : Tables} {entries : List PinnedEntry}

structure Succeeds (c : DMLConsumer κ) (a : SuccessorArguments κ) (heir : DMLConsumer κ) : Prop
    where
  name : heir.config.name = a.name
  onExists : heir.config.onExists = a.onExists
  table : heir.table = c.table
  tableId : heir.tableId = c.tableId

theorem ends_successor (w : CdcLoop.World ι) :
    Ends (successor c answers opened a) w (fun heir _ => Succeeds c a heir) (fun _ _ => True) := by
  unfold successor
  simp only [ends_bind]
  apply ends_mono (ends_total _ w) _ fun _ _ _ => trivial
  intro _ u _
  apply ends_mono (ends_total _ u) _ fun _ _ _ => trivial
  intro startAt v _
  cases made : DMLConsumer.init (successorArguments c a startAt) with
  | error e => trivial
  | ok heir =>
    obtain ⟨name,onExists,table,tableId⟩ := init_ok made
    exact ⟨name,onExists,table,tableId⟩

/-- Setup of `heir` leaves it pinned to the table, if it ends; the lease policy and the sinks
    come after it. -/
def Inherits (ext : Extension) (tables : Tables) (heir : DMLConsumer κ)
    (entries : List PinnedEntry) (tableId : Int) : Prop :=
  Ends (setupConsumer ext tables heir) entries
    (fun _ after => PinnedTo heir.config.name tableId after) (fun _ _ => True)

/-- No other table bears the name the consumer was constructed with. -/
def NameKept (ext : Extension) (tables : Tables) (c : DMLConsumer κ) (tableId : Int) : Prop :=
  ∀ text name other, c.table = some text → ext.resolve text = some name →
    tables.idOf name = some other → other = tableId

/-- The extension refuses to create the successor for a reason of its own; or the consumer
    that the successor becomes is there already and pinned to the table; or it is created,
    and no other table bears the name. -/
def KeepsTable (ext : Extension) (tables : Tables) (c : DMLConsumer κ) (a : SuccessorArguments κ)
    (entries : List PinnedEntry) (tableId : Int) : Prop :=
  ext.refusal tables a.name c.table c.tableId ≠ none ∨
    match a.onExists, named a.name entries with
    | .use, some entry => entry.tableId = tableId
    | .error, some _ => True
    | _, _ => NameKept ext tables c tableId

theorem nameKept_iff {before : Tables} {tableId : Int}
    (created : ext.pinned before c.table c.tableId = some tableId) :
    (∀ other, ext.pinned tables c.table c.tableId = some other → other = tableId) ↔
      NameKept ext tables c tableId := by
  unfold NameKept
  cases byName : c.table with
  | none =>
    rw [byName] at created
    cases byId : c.tableId with
    | none => simp [Extension.pinned]
    | some own =>
      rw [byId] at created
      cases created
      simp [Extension.pinned, eq_comm]
  | some text =>
    simp only [tableId_of_table byName, Extension.pinned, Option.bind_eq_some_iff]
    constructor
    · rintro all _ name other ⟨⟩ resolved borne
      exact all other ⟨name,resolved,borne⟩
    · rintro all other ⟨name,resolved,borne⟩
      exact all text name other rfl resolved borne

theorem made_inherits_iff {tableId : Int} (free : named heir.config.name entries = none)
    (clear : ext.refusal tables heir.config.name heir.table heir.tableId = none) :
    (∀ after, Made ext tables heir entries after → PinnedTo heir.config.name tableId after) ↔
      ∀ other, ext.pinned tables heir.table heir.tableId = some other → other = tableId := by
  constructor
  · intro all other pinned
    have made : Made ext tables heir entries _ := ⟨clear,free,other,pinned,rfl⟩
    have same := all _ made
    rw [PinnedTo, tableId_made made, pinned] at same
    exact Option.some.inj same
  · intro all after made
    rw [PinnedTo, tableId_made made]
    obtain ⟨_,_,other,pinned,_⟩ := made
    rw [pinned, all other pinned]

/-- What is set up is pinned to the table exactly if it is taken up from there or created
    under a name that still means it. -/
theorem inherits_iff {tableId : Int} (succeeds : Succeeds c a heir) {before : Tables}
    (created : ext.pinned before c.table c.tableId = some tableId) :
    Inherits ext tables heir entries tableId ↔ KeepsTable ext tables c a entries tableId := by
  rw [Inherits, ends_setup_iff, KeepsTable, ← nameKept_iff created, ← succeeds.name,
    ← succeeds.table, ← succeeds.tableId, ← succeeds.onExists]
  cases clear : ext.refusal tables heir.config.name heir.table heir.tableId with
  | some e =>
    have unmade : ∀ entries, Unmade ext tables heir entries :=
      fun _ => Or.inl (by simp [clear])
    apply iff_of_true _ (Or.inl (Option.some_ne_none e))
    unfold Leaves
    split
    · exact fun _ made => absurd made (not_made_of_unmade (unmade _))
    · exact fun _ made => absurd made (not_made_of_unmade (unmade _))
    · exact ⟨fun _ made => absurd made (not_made_of_unmade (unmade _)),
        fun taken => absurd taken (not_taken_of_unmade (unmade _))⟩
  | none =>
    rw [or_iff_right (not_not.mpr rfl)]
    unfold Leaves
    cases policy : heir.config.onExists with
    | replace => exact made_inherits_iff named_cleared clear
    | error =>
      cases found : named heir.config.name entries with
      | none => exact made_inherits_iff found clear
      | some entry =>
        exact iff_of_true (fun _ made => absurd made (not_made_of_taken ⟨clear,entry,found⟩)) trivial
    | use =>
      cases found : named heir.config.name entries with
      | none =>
        rw [← made_inherits_iff found clear]
        refine ⟨fun all => all.1,fun all => ⟨all,fun taken => ?_⟩⟩
        obtain ⟨entry,there⟩ := taken.2
        rw [found] at there
        cases there
      | some entry =>
        have taken : Taken ext tables heir entries := ⟨clear,entry,found⟩
        constructor
        · intro all
          have same : PinnedTo heir.config.name tableId entries := all.2 taken
          rw [PinnedTo, found, Option.map_some] at same
          exact Option.some.inj same
        · intro same
          refine ⟨fun _ made => absurd made (not_made_of_taken taken),fun _ => ?_⟩
          change entry.tableId = tableId at same
          rw [PinnedTo, found, Option.map_some, same]

theorem nameKept_of_history {before : Tables} {tableId : Int} {history : List TableEvent}
    (created : ext.pinned before c.table c.tableId = some tableId)
    (kept : ∀ text name, c.table = some text → ext.resolve text = some name →
      ∀ event ∈ history, ¬ event.Frees name) : NameKept ext (before.run history) c tableId := by
  intro text name other byName resolved borne
  have bore := nameOf_of_pinned created byName resolved
  have still := nameOf_run_kept bore (kept text name byName resolved)
  rw [← idOf_eq_some_iff, borne] at still
  exact Option.some.inj still

theorem successor_returns (named_ : a.name ≠ "")
    (timed : ∀ timeout, a.leaseWaitTimeout = some timeout → 0 ≤ timeout) {startAt : StartAt}
    (start : a.startAt = some startAt) (w : CdcLoop.World ι) :
    ∃ heir, (successor c answers true a).run w = .ok heir w := by
  have timeout : ¬ (successorArguments c a startAt).leaseWaitTimeout < 0 := by
    rw [not_lt, successorArguments]
    cases given : a.leaseWaitTimeout with
    | none => exact c.config.timeout_nonneg
    | some timeout => exact timed timeout given
  obtain ⟨heir,made⟩ : ∃ heir, DMLConsumer.init (successorArguments c a startAt) = .ok heir :=
    init_returns named_ timeout c.onePin
  refine ⟨heir,?_⟩
  unfold successor CdcLoop.requireOpen successorStart HighLevelConsumer.inLoop
  simp only [start, if_true, pure_bind, made]
  rfl

/-- The successor of a consumer is pinned to the table of its predecessor, after every history
    of the tables, exactly if the name it is handed has not come to another table; a
    `table_id` always means the same one. -/
theorem successor_pinned_iff (ext : Extension) (c : DMLConsumer κ) (before : Tables) (tableId : Int)
    (created : ext.pinned before c.table c.tableId = some tableId) (history : List TableEvent)
    (answers : Answers ρ) (opened : Bool) (a : SuccessorArguments κ) (w u : CdcLoop.World ι)
    (heir : DMLConsumer κ) (made : (successor c answers opened a).run w = .ok heir u)
    (entries : List PinnedEntry) :
    Inherits ext (before.run history) heir entries tableId ↔
      KeepsTable ext (before.run history) c a entries tableId :=
  inherits_iff ((ends_of_ok made).mp (ends_successor w)) created

end

def second : SuccessorArguments Nat where
  name := "orders-2"
  startAt := some (.snapshot 5)

theorem second_returns : ∃ heir,
    (successor ordersByName boundaryAnswers true second).run nothingYet = .ok heir nothingYet :=
  successor_returns (by decide) (fun _ no => by cases no) rfl nothingYet

theorem successor_pinned_of_reused : ∃ heir,
    (successor ordersByName boundaryAnswers true second).run nothingYet = .ok heir nothingYet ∧
      (Inherits plainExtension (ordersTables.run reused) heir [] 7 ↔
        KeepsTable plainExtension (ordersTables.run reused) ordersByName second [] 7) := by
  obtain ⟨heir,made⟩ := second_returns
  exact ⟨heir,made,successor_pinned_iff plainExtension ordersByName ordersTables 7 (by decide) reused
    boundaryAnswers true second nothingYet nothingYet heir made []⟩

/-- The name `orders` has come to another table, and the successor takes that one up. -/
theorem successor_of_reused_name : ¬ ∀ (ext : Extension) (c : DMLConsumer Nat) (before : Tables)
    (tableId : Int), ext.pinned before c.table c.tableId = some tableId →
    ∀ (history : List TableEvent) (answers : Answers Int) (opened : Bool)
      (a : SuccessorArguments Nat) (w u : CdcLoop.World Int) (heir : DMLConsumer Nat),
      (successor c answers opened a).run w = .ok heir u → ∀ entries : List PinnedEntry,
        Inherits ext (before.run history) heir entries tableId := by
  intro all
  obtain ⟨heir,made⟩ := second_returns
  have pinned : plainExtension.pinned ordersTables ordersByName.table ordersByName.tableId =
      some 7 := by decide
  have succeeds : Succeeds ordersByName second heir :=
    (ends_of_ok made).mp (ends_successor nothingYet)
  have inherits := all plainExtension ordersByName ordersTables 7 pinned reused boundaryAnswers true
    second nothingYet nothingYet heir made []
  rcases (inherits_iff succeeds pinned).mp inherits with refused | kept
  · exact refused rfl
  · exact absurd (kept "orders" mainOrders 8 rfl rfl (by decide)) (by decide)

end CdcPins
