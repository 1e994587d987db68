import DucklakeCdc.NamedObjects
import DucklakeCdc.TransientLeaks

/-!
The table a DML consumer is pinned to (`consumers/dml.py`). The extension keeps the table's
identity, fixed when the consumer is created; the consumer's object keeps the name or the
`table_id` it was constructed with, and hands that on to its successor.
-/
namespace CdcPins
open Programs CdcRetry CdcSetup CdcTransient NamedObjects
variable {κ : Type}

structure QualifiedName where
  schema : String
  table : String
  deriving DecidableEq, Repr

abbrev Tables := Directory Int QualifiedName

abbrev TableEvent := Event Int QualifiedName

inductive StartAt where
  | text (start : String)
  | snapshot (n : Int)
  deriving DecidableEq, Repr

/-- `lakeAlias` is the alias of its lake; `catalog` may be another with a client of its own. -/
structure DMLConsumer (κ : Type) extends HighLevelConsumer κ where
  lakeAlias : String := "lake"
  tableId : Option Int := none
  changeTypes : Option (List String) := none
  startAt : StartAt := .text "now"
  isDml : kind = .dml
  onePin : table.isNone ≠ tableId.isNone

structure Arguments (κ : Type) where
  platform : Platform
  lakeAlias : String
  name : String
  table : Option String := none
  tableId : Option Int := none
  changeTypes : List String := []
  startAt : StartAt := .text "now"
  mode : CdcLoop.ConsumerMode := .ticks
  onExists : OnExists := .use
  leasePolicy : LeasePolicy := .wait
  leaseWaitTimeout : ℚ := 30
  sinks : List κ := []
  wiring : CdcLifecycle.Wiring := .derives
  clientCatalog : String := lakeAlias
  retryPolicy : RetryPolicy := RetryPolicy.default

def nameError : Exc := .raised .valueError "DMLConsumer requires a non-empty name"

def timeoutError : Exc := .raised .valueError "lease_wait_timeout must be >= 0"

def onePinError : Exc := .raised .valueError
  ("DMLConsumer requires exactly one of table=... or table_id=... " ++
    "(DML consumers are pinned to a single table).")

def DMLConsumer.init (a : Arguments κ) : Except Exc (DMLConsumer κ) :=
  if named : a.name = "" then .error nameError
  else if timed : a.leaseWaitTimeout < 0 then .error timeoutError
  else if onePin : a.table.isNone = a.tableId.isNone then .error onePinError
  else .ok {
    platform := a.platform
    config := {
      name := a.name
      onExists := a.onExists
      leasePolicy := a.leasePolicy
      leaseWaitTimeout := a.leaseWaitTimeout
      name_nonempty := named
      timeout_nonneg := not_lt.mp timed }
    owner := ⟨a.wiring,a.sinks,a.retryPolicy⟩
    mode := a.mode
    table := a.table
    catalog := if a.wiring = .client then a.clientCatalog else a.lakeAlias
    lakeAlias := a.lakeAlias
    tableId := a.tableId
    changeTypes := if a.changeTypes = [] then none else some a.changeTypes
    startAt := a.startAt
    isDml := rfl
    onePin := onePin }

theorem init_ok {args : Arguments κ} {c : DMLConsumer κ} (made : DMLConsumer.init args = .ok c) :
    c.config.name = args.name ∧ c.config.onExists = args.onExists ∧
      c.table = args.table ∧ c.tableId = args.tableId := by
  unfold DMLConsumer.init at made
  split at made
  · cases made
  · split at made
    · cases made
    · split at made
      · cases made
      · cases made
        exact ⟨rfl,rfl,rfl,rfl⟩

theorem init_returns {args : Arguments κ} (named : args.name ≠ "")
    (timed : ¬ args.leaseWaitTimeout < 0) (onePin : args.table.isNone ≠ args.tableId.isNone) :
    ∃ c, DMLConsumer.init args = .ok c := by
  rw [DMLConsumer.init, dif_neg named, dif_neg timed, dif_neg onePin]
  exact ⟨_,rfl⟩

/-- The entry of a consumer in the catalog, with the table it is pinned to. -/
structure PinnedEntry extends ConsumerListEntry where
  tableId : Int

/-- What the extension makes of a create: the table a text names, if it names one, and what
    else it refuses a create for, before it looks whether the name is taken. -/
structure Extension where
  resolve : String → Option QualifiedName
  refusal : Tables → String → Option String → Option Int → Option Exc
  noTable : Exc
  refusal_plain : ∀ tables name table tableId e, refusal tables name table tableId = some e →
    isDuplicateConsumerError e name = false
  noTable_plain : ∀ name, isDuplicateConsumerError noTable name = false

def Extension.pinned (ext : Extension) (tables : Tables) : Option String → Option Int → Option Int
  | some table, none => (ext.resolve table).bind tables.idOf
  | none, some tableId => some tableId
  | _, _ => none

def named (name : String) (entries : List PinnedEntry) : Option PinnedEntry :=
  entries.find? fun entry => entry.consumerName == name

def released (name : String) (entry : PinnedEntry) : PinnedEntry :=
  { entry with toConsumerListEntry := releaseEntry name entry.toConsumerListEntry }

def PinnedTo (name : String) (tableId : Int) (entries : List PinnedEntry) : Prop :=
  (named name entries).map PinnedEntry.tableId = some tableId

/-- Programs on the entries of the catalog, while nobody else changes them. -/
abbrev Pinning := EStateM Exc (List PinnedEntry)

section
variable (ext : Extension) (tables : Tables) (c : DMLConsumer κ)

def createConsumer : Pinning Unit := do
  let entries ← get
  match ext.refusal tables c.config.name c.table c.tableId with
  | some e => throw e
  | none =>
    match named c.config.name entries, ext.pinned tables c.table c.tableId with
    | some _, _ => throw (c.platform.alreadyExists c.config.name)
    | none, none => throw ext.noTable
    | none, some tableId => set (entries ++ [⟨createdEntry c.config.name,tableId⟩])

def changeExisting (change : List PinnedEntry → List PinnedEntry) : Pinning Unit := do
  let entries ← get
  match named c.config.name entries with
  | none => throw (c.platform.doesNotExist c.config.name)
  | some _ => set (change entries)

def forceRelease : Pinning Unit :=
  changeExisting c fun entries => entries.map (released c.config.name)

def dropConsumer : Pinning Unit :=
  changeExisting c fun entries => entries.filter fun entry => entry.consumerName ≠ c.config.name

def ignoreMissing (operation : Pinning Unit) : Pinning Unit :=
  tryExcept isQueryError operation fun e =>
    if !isMissingConsumerError e c.config.name then throw e else pure ()

def tryCreate : Pinning Bool :=
  tryExcept isQueryError
    (do
      createConsumer ext tables c
      pure true)
    fun e => if !isDuplicateConsumerError e c.config.name then throw e else pure false

def setupConsumer : Pinning Unit :=
  match c.config.onExists with
  | .replace => do
    ignoreMissing c (forceRelease c)
    ignoreMissing c (dropConsumer c)
    createConsumer ext tables c
  | onExists => do
    let created ← tryCreate ext tables c
    if created then pure ()
    else if onExists = .error then throw (existsError c.platform c.config)
    else pure ()

end
section
variable {ext : Extension} {tables : Tables} {c : DMLConsumer κ} {entries : List PinnedEntry}
  {name : String} {ok : Unit → List PinnedEntry → Prop}

theorem tableId_of_table {text : String} (byName : c.table = some text) : c.tableId = none := by
  have one := c.onePin
  rw [byName] at one
  simpa using one

theorem table_of_tableId {tableId : Int} (byId : c.tableId = some tableId) : c.table = none := by
  have one := c.onePin
  rw [byId] at one
  simpa using one

theorem nameOf_of_pinned {tableId : Int} {text : String} {table : QualifiedName}
    (created : ext.pinned tables c.table c.tableId = some tableId) (byName : c.table = some text)
    (resolved : ext.resolve text = some table) : tables.nameOf tableId = some table := by
  rwa [byName, tableId_of_table byName, Extension.pinned, resolved, Option.bind_some,
    idOf_eq_some_iff] at created

theorem named_of_absent (absent : named name entries = none) :
    ∀ entry ∈ entries, entry.consumerName ≠ name := by
  intro entry member
  simpa using List.find?_eq_none.mp absent entry member

theorem ends_changeExisting {change : List PinnedEntry → List PinnedEntry}
    (absent : named c.config.name entries = none → change entries = entries) :
    Ends (ignoreMissing c (changeExisting c change)) entries (fun _ t => t = change entries)
      (fun _ _ => False) := by
  rw [ignoreMissing, ends_tryExcept]
  simp only [changeExisting, ends_bind, ends_get]
  cases found : named c.config.name entries with
  | some entry => exact rfl
  | none =>
    have missing := c.platform.missing c.config.name
    rw [ends_throw, if_pos missing.1, missing.2]
    exact (absent found).symm

theorem ends_forceRelease : Ends (ignoreMissing c (forceRelease c)) entries
    (fun _ t => t = entries.map (released c.config.name)) (fun _ _ => False) := by
  apply ends_changeExisting
  intro absent
  have same : ∀ entry ∈ entries, released c.config.name entry = entry := by
    intro entry member
    have other : releaseEntry c.config.name entry.toConsumerListEntry =
        entry.toConsumerListEntry := if_neg (named_of_absent absent entry member)
    rw [released, other]
  rw [List.map_congr_left same, List.map_id']

theorem ends_dropConsumer : Ends (ignoreMissing c (dropConsumer c)) entries
    (fun _ t => t = entries.filter fun entry => entry.consumerName ≠ c.config.name)
    (fun _ _ => False) := by
  apply ends_changeExisting
  intro absent
  rw [List.filter_eq_self]
  exact fun entry member => by simpa using named_of_absent absent entry member

def cleared (name : String) (entries : List PinnedEntry) : List PinnedEntry :=
  (entries.map (released name)).filter fun entry => entry.consumerName ≠ name

theorem named_cleared : named name (cleared name entries) = none := by
  rw [named, List.find?_eq_none]
  intro entry member
  simpa [cleared] using (List.mem_filter.mp member).2

def Made (ext : Extension) (tables : Tables) (c : DMLConsumer κ)
    (entries after : List PinnedEntry) : Prop :=
  ext.refusal tables c.config.name c.table c.tableId = none ∧
    named c.config.name entries = none ∧
    ∃ tableId, ext.pinned tables c.table c.tableId = some tableId ∧
      after = entries ++ [⟨createdEntry c.config.name,tableId⟩]

def Unmade (ext : Extension) (tables : Tables) (c : DMLConsumer κ) (entries : List PinnedEntry) :
    Prop :=
  ext.refusal tables c.config.name c.table c.tableId ≠ none ∨
    named c.config.name entries = none ∧ ext.pinned tables c.table c.tableId = none

def Taken (ext : Extension) (tables : Tables) (c : DMLConsumer κ) (entries : List PinnedEntry) :
    Prop :=
  ext.refusal tables c.config.name c.table c.tableId = none ∧
    ∃ entry, named c.config.name entries = some entry

theorem ends_createConsumer : Ends (createConsumer ext tables c) entries
    (fun _ after => Made ext tables c entries after)
    (fun e after => after = entries ∧
      (Unmade ext tables c entries ∧ isDuplicateConsumerError e c.config.name = false ∨
        Taken ext tables c entries ∧ e = c.platform.alreadyExists c.config.name)) := by
  simp only [createConsumer, ends_bind, ends_get]
  cases refused : ext.refusal tables c.config.name c.table c.tableId with
  | some e =>
    have other : ext.refusal tables c.config.name c.table c.tableId ≠ none := by simp [refused]
    exact ⟨rfl,Or.inl ⟨Or.inl other,ext.refusal_plain _ _ _ _ e refused⟩⟩
  | none =>
    cases found : named c.config.name entries with
    | some entry => exact ⟨rfl,Or.inr ⟨⟨refused,entry,found⟩,rfl⟩⟩
    | none =>
      cases pinned : ext.pinned tables c.table c.tableId with
      | none => exact ⟨rfl,Or.inl ⟨Or.inr ⟨found,pinned⟩,ext.noTable_plain _⟩⟩
      | some tableId => exact ⟨refused,found,tableId,pinned,rfl⟩

theorem ends_tryCreate : Ends (tryCreate ext tables c) entries
    (fun created after => if created then Made ext tables c entries after
      else Taken ext tables c entries ∧ after = entries)
    (fun _ _ => Unmade ext tables c entries) := by
  rw [tryCreate, ends_tryExcept, ends_bind]
  apply ends_mono ends_createConsumer
  · exact fun _ after made => made
  · rintro e after ⟨rfl,⟨unmade,plain⟩ | ⟨taken,rfl⟩⟩
    · rw [plain]
      split <;> exact unmade
    · have duplicate := c.platform.duplicate c.config.name
      rw [if_pos duplicate.1, duplicate.2]
      exact ⟨taken,rfl⟩

def Leaves (ext : Extension) (tables : Tables) (c : DMLConsumer κ) (entries : List PinnedEntry)
    (fine : List PinnedEntry → Prop) : Prop :=
  match c.config.onExists with
  | .replace => ∀ after, Made ext tables c (cleared c.config.name entries) after → fine after
  | .error => ∀ after, Made ext tables c entries after → fine after
  | .use => (∀ after, Made ext tables c entries after → fine after) ∧
      (Taken ext tables c entries → fine entries)

theorem made_unique {after after' : List PinnedEntry} (made : Made ext tables c entries after)
    (made' : Made ext tables c entries after') : after' = after := by
  obtain ⟨_,_,tableId,pinned,rfl⟩ := made
  obtain ⟨_,_,tableId',pinned',rfl⟩ := made'
  rw [pinned] at pinned'
  cases pinned'
  rfl

theorem not_made_of_taken {after : List PinnedEntry} (taken : Taken ext tables c entries) :
    ¬ Made ext tables c entries after := by
  intro made
  obtain ⟨entry,found⟩ := taken.2
  rw [made.2.1] at found
  cases found

theorem not_made_of_unmade {after : List PinnedEntry} (unmade : Unmade ext tables c entries) :
    ¬ Made ext tables c entries after := by
  rintro ⟨clear,_,tableId,pinned,_⟩
  rcases unmade with refused | ⟨_,missing⟩
  · exact refused clear
  · rw [missing] at pinned
    cases pinned

theorem not_taken_of_unmade (unmade : Unmade ext tables c entries) :
    ¬ Taken ext tables c entries := by
  rintro ⟨clear,entry,found⟩
  rcases unmade with refused | ⟨free,_⟩
  · exact refused clear
  · rw [free] at found
    cases found

theorem ends_setup_iff {fine : List PinnedEntry → Prop} :
    Ends (setupConsumer ext tables c) entries (fun _ after => fine after) (fun _ _ => True) ↔
      Leaves ext tables c entries fine := by
  apply ends_iff
  unfold Leaves
  cases policy : c.config.onExists with
  | replace =>
    simp only [setupConsumer, policy, ends_bind]
    apply ends_mono ends_forceRelease _ fun _ _ no => no.elim
    rintro _ _ rfl
    apply ends_mono ends_dropConsumer _ fun _ _ no => no.elim
    rintro _ _ rfl
    apply ends_mono ends_createConsumer
    · intro _ after made
      exact ⟨fun holds _ made' => made_unique made made' ▸ holds,fun all => all after made⟩
    · rintro e _ ⟨rfl,⟨unmade,_⟩ | ⟨taken,_⟩⟩
      · exact iff_of_true trivial fun _ made => absurd made (not_made_of_unmade unmade)
      · exact iff_of_true trivial fun _ made => absurd made (not_made_of_taken taken)
  | error =>
    simp only [setupConsumer, policy, ends_bind]
    apply ends_mono ends_tryCreate
    · intro created after outcome
      cases created with
      | true =>
        exact ⟨fun holds _ made' => made_unique outcome made' ▸ holds,fun all => all after outcome⟩
      | false => exact iff_of_true trivial fun _ made => absurd made (not_made_of_taken outcome.1)
    · intro _ _ unmade
      exact iff_of_true trivial fun _ made => absurd made (not_made_of_unmade unmade)
  | use =>
    simp only [setupConsumer, policy, ends_bind]
    apply ends_mono ends_tryCreate
    · intro created after outcome
      cases created with
      | true =>
        refine ⟨fun holds => ⟨fun _ made' => made_unique outcome made' ▸ holds,fun taken => ?_⟩,
          fun all => all.1 after outcome⟩
        exact absurd outcome (not_made_of_taken taken)
      | false =>
        obtain ⟨taken,rfl⟩ := outcome
        refine ⟨fun holds => ⟨fun _ made => ?_,fun _ => holds⟩,fun all => all.2 taken⟩
        exact absurd made (not_made_of_taken taken)
    · intro _ _ unmade
      exact iff_of_true trivial ⟨fun _ made => absurd made (not_made_of_unmade unmade),
        fun taken => absurd taken (not_taken_of_unmade unmade)⟩

theorem tableId_made {after : List PinnedEntry} (made : Made ext tables c entries after) :
    (named c.config.name after).map PinnedEntry.tableId = ext.pinned tables c.table c.tableId := by
  obtain ⟨_,free,tableId,pinned,rfl⟩ := made
  rw [named] at free
  rw [named, List.find?_append, free, pinned, Option.none_or, List.find?_singleton]
  simp [createdEntry]

/-! The same setup as in `CdcSetup`, which leaves the tables out -/

/-- Nobody else changes the catalog, and call number `k` alone may fail. -/
def onlyAt (k : Nat) (fault : Option Exc) (i : Nat) : Moment :=
  { fault := if i = k then fault else none }

structure Shows (moments : Nat → Moment) (n : Nat) (s : Registry) (entries : List PinnedEntry) :
    Prop where
  entries : s.entries = entries.map PinnedEntry.toConsumerListEntry
  moments : s.moments = moments
  calls : s.calls.length = n

theorem has_shown : Catalog.has (entries.map PinnedEntry.toConsumerListEntry) name =
    (named name entries).isSome := by
  rw [Catalog.has, List.any_map, named, List.isSome_find?]
  rfl

theorem inStep_callCatalog {α : Type} {call : CatalogCall}
    {effect : Catalog → Except Exc (α × Catalog)} {q : Pinning α} {s : Registry} {n k : Nat}
    {fault : Option Exc} (h : Shows (onlyAt k fault) n s entries)
    (failed : ∀ e, n = k → fault = some e →
      Ends q entries (fun _ _ => False) (fun e' t => e' = e ∧ t = entries))
    (refused : ∀ e, (n = k → fault = none) →
      effect (entries.map PinnedEntry.toConsumerListEntry) = .error e →
      Ends q entries (fun _ _ => False) (fun e' t => e' = e ∧ t = entries))
    (done : ∀ a after, (n = k → fault = none) →
      effect (entries.map PinnedEntry.toConsumerListEntry) = .ok (a,after) →
      Ends q entries (fun b t => b = a ∧ after = t.map PinnedEntry.toConsumerListEntry)
        (fun _ _ => False)) :
    InStep (Shows (onlyAt k fault) (n + 1)) (callCatalog call effect) s q entries := by
  have moment : s.moment = onlyAt k fault n := by rw [Registry.moment, h.moments, h.calls]
  have met : (s.arrive call).entries = entries.map PinnedEntry.toConsumerListEntry := by
    rw [Registry.arrive, moment]
    exact h.entries
  have arrived : Shows (onlyAt k fault) (n + 1) (s.arrive call) entries :=
    ⟨met,h.moments,by rw [arrive_calls, List.length_append, h.calls]; rfl⟩
  have clean : s.moment.fault = none → n = k → fault = none := by
    rw [moment]
    intro none_ same
    simpa [onlyAt, same] using none_
  apply inStep_of_ends
  apply ends_callCatalog
  · intro e fails
    rw [moment] at fails
    have here : n = k := by
      by_contra other
      simp [onlyAt, other] at fails
    apply ends_mono (failed e here (by simpa [onlyAt, here] using fails)) fun _ _ no => no.elim
    rintro e' _ ⟨rfl,rfl⟩
    exact ⟨rfl,arrived⟩
  · intro e quiet answer
    rw [met] at answer
    apply ends_mono (refused e (clean quiet) answer) fun _ _ no => no.elim
    rintro e' _ ⟨rfl,rfl⟩
    exact ⟨rfl,arrived⟩
  · intro a after quiet answer
    rw [met] at answer
    apply ends_mono (done a after (clean quiet) answer) _ fun _ _ no => no.elim
    rintro b t ⟨rfl,rfl⟩
    exact ⟨rfl,rfl,arrived.moments,arrived.calls⟩

def creationFault (ext : Extension) (tables : Tables) (c : DMLConsumer κ)
    (entries : List PinnedEntry) : Option Exc :=
  match ext.refusal tables c.config.name c.table c.tableId with
  | some e => some e
  | none =>
    match named c.config.name entries, ext.pinned tables c.table c.tableId with
    | none, none => some ext.noTable
    | _, _ => none

theorem inStep_create {s : Registry} {n : Nat}
    (h : Shows (onlyAt n (creationFault ext tables c entries)) n s entries) :
    InStep (Shows (onlyAt n (creationFault ext tables c entries)) (n + 1))
      (cdcConsumerCreate c.platform c.config.name) s (createConsumer ext tables c) entries := by
  apply inStep_callCatalog h
  · intro e _ fault
    simp only [createConsumer, ends_bind, ends_get]
    rw [creationFault] at fault
    cases refused : ext.refusal tables c.config.name c.table c.tableId with
    | some e' =>
      rw [refused] at fault
      exact ⟨Option.some.inj fault,rfl⟩
    | none =>
      rw [refused] at fault
      cases found : named c.config.name entries <;>
        cases pinned : ext.pinned tables c.table c.tableId <;>
        simp only [found, pinned, reduceCtorEq] at fault
      exact ⟨Option.some.inj fault,rfl⟩
  · intro e clean answer
    have fault := clean rfl
    simp only [createConsumer, ends_bind, ends_get]
    rw [has_shown] at answer
    rw [creationFault] at fault
    cases refused : ext.refusal tables c.config.name c.table c.tableId with
    | some e' => simp [refused] at fault
    | none =>
      cases found : named c.config.name entries with
      | none => simp [found] at answer
      | some entry =>
        rw [found] at answer
        exact ⟨Except.error.inj answer,rfl⟩
  · intro a after clean answer
    have fault := clean rfl
    simp only [createConsumer, ends_bind, ends_get]
    rw [has_shown] at answer
    rw [creationFault] at fault
    cases refused : ext.refusal tables c.config.name c.table c.tableId with
    | some e' => simp [refused] at fault
    | none =>
      cases found : named c.config.name entries with
      | some entry => simp [found] at answer
      | none =>
        cases pinned : ext.pinned tables c.table c.tableId with
        | none => simp [refused, found, pinned] at fault
        | some tableId =>
          rw [found] at answer
          cases answer
          exact ⟨trivial,by simp⟩

theorem inStep_changeExisting {k : Nat} {fault : Option Exc} {s : Registry} {n : Nat}
    (h : Shows (onlyAt k fault) n s entries) (other : n ≠ k) {call : CatalogCall}
    {change : Catalog → Catalog} {change' : List PinnedEntry → List PinnedEntry}
    (same : change (entries.map PinnedEntry.toConsumerListEntry) =
      (change' entries).map PinnedEntry.toConsumerListEntry) :
    InStep (Shows (onlyAt k fault) (n + 1))
      (CdcSetup.ignoreMissing c.config.name (callCatalog call fun entries =>
        if entries.has c.config.name then .ok ((),change entries)
        else .error (c.platform.doesNotExist c.config.name))) s
      (ignoreMissing c (changeExisting c change')) entries := by
  apply inStep_tryExcept
  · apply inStep_callCatalog h
    · exact fun _ here _ => absurd here other
    · intro e _ answer
      simp only [changeExisting, ends_bind, ends_get]
      rw [has_shown] at answer
      cases found : named c.config.name entries with
      | none =>
        rw [found] at answer
        exact ⟨Except.error.inj answer,rfl⟩
      | some entry =>
        rw [found] at answer
        cases answer
    · intro _ after _ answer
      simp only [changeExisting, ends_bind, ends_get]
      rw [has_shown] at answer
      cases found : named c.config.name entries with
      | none =>
        rw [found] at answer
        cases answer
      | some entry =>
        rw [found] at answer
        cases answer
        exact ⟨trivial,same⟩
  · intro e s' t' related
    split
    · exact .error related
    · exact .ok related

def met (c : DMLConsumer κ) (entries : List PinnedEntry) : List PinnedEntry :=
  if c.config.onExists = .replace then cleared c.config.name entries else entries

def createCall (c : DMLConsumer κ) : Nat := if c.config.onExists = .replace then 2 else 0

theorem inStep_tryCreate {s : Registry}
    (h : Shows (onlyAt 0 (creationFault ext tables c entries)) 0 s entries) :
    InStep (Shows (onlyAt 0 (creationFault ext tables c entries)) 1)
      (CdcSetup.tryCreate c.platform c.config) s (tryCreate ext tables c) entries := by
  apply inStep_tryExcept
  · apply inStep_bind (inStep_create h) (ends_total _ _)
    · exact fun _ _ _ related _ => .ok related
    · exact fun _ _ related => related
  · intro e s' t' related
    split
    · exact .error related
    · exact .ok related

def SameCatalog (s : Registry) (entries : List PinnedEntry) : Prop :=
  s.entries = entries.map PinnedEntry.toConsumerListEntry

/-- On a catalog that nobody else changes and that refuses just this create, the two setups
    end alike. -/
theorem inStep_setup {s : Registry}
    (h : Shows (onlyAt (createCall c) (creationFault ext tables c (met c entries))) 0 s entries) :
    InStep SameCatalog (CdcSetup.setupConsumer c.platform c.config) s
      (setupConsumer ext tables c) entries := by
  have policies : c.config.onExists ≠ .replace →
      InStep SameCatalog
        (do
          let created ← CdcSetup.tryCreate c.platform c.config
          if created then pure ()
          else if c.config.onExists = .error then throw (existsError c.platform c.config)
          else pure ()) s
        (do
          let created ← tryCreate ext tables c
          if created then pure ()
          else if c.config.onExists = .error then throw (existsError c.platform c.config)
          else pure ()) entries := by
    intro other
    simp only [createCall, met, if_neg other] at h
    apply inStep_bind (inStep_tryCreate h) (ends_total _ _)
    · intro created s' t' related _
      split
      · exact .ok related.entries
      · split
        · exact .error related.entries
        · exact .ok related.entries
    · exact fun _ _ related => related.entries
  cases policy : c.config.onExists with
  | replace =>
    simp only [createCall, met, policy, if_true] at h
    simp only [CdcSetup.setupConsumer, dropConsumerIfExists, setupConsumer, policy, bind_assoc]
    have releases : (entries.map PinnedEntry.toConsumerListEntry).map
        (releaseEntry c.config.name) =
        (entries.map (released c.config.name)).map PinnedEntry.toConsumerListEntry := by
      rw [List.map_map, List.map_map]
      rfl
    apply inStep_bind (inStep_changeExisting h (by decide) releases) ends_forceRelease
    · rintro _ s' _ related rfl
      have drops : ((entries.map (released c.config.name)).map
          PinnedEntry.toConsumerListEntry).filter
            (fun entry => entry.consumerName ≠ c.config.name) =
          (cleared c.config.name entries).map PinnedEntry.toConsumerListEntry :=
        List.filter_map
      apply inStep_bind (inStep_changeExisting related (by decide) drops) ends_dropConsumer
      · rintro _ s'' _ related rfl
        exact inStep_mono (inStep_create related) fun _ _ shown => shown.entries
      · exact fun _ _ related => related.entries
    · exact fun _ _ related => related.entries
  | error =>
    have alike := policies (by simp [policy])
    unfold CdcSetup.setupConsumer setupConsumer
    rw [policy] at alike ⊢
    exact alike
  | use =>
    have alike := policies (by simp [policy])
    unfold CdcSetup.setupConsumer setupConsumer
    rw [policy] at alike ⊢
    exact alike

end
/-! An extension that takes a bare name to be in `main`, and tables `orders` -/

def resolveText (text : String) : Option QualifiedName :=
  match text.toList.span (· ≠ '.') with
  | (schema, _ :: table) => some ⟨String.ofList schema,String.ofList table⟩
  | (_, []) => some ⟨"main",text⟩

def plainExtension : Extension where
  resolve := resolveText
  refusal _ _ _ _ := none
  noTable := queryFailed "table does not exist"
  refusal_plain _ _ _ _ _ refused := by cases refused
  noTable_plain name := by
    have told : textContains "already exists" "table does not exist".toList = false := by decide
    have wrapped : textContains "already exists" "DuckLake CDC query failed".toList = false := by
      decide
    simp only [isDuplicateConsumerError, queryFailed, consumerErrorContains,
      consumerErrorContains.named, told, wrapped, Bool.and_false, Bool.or_false]

def mainOrders : QualifiedName := ⟨"main","orders"⟩

def ordersTables : Tables := Directory.empty.run [.create 7 mainOrders]

/-- `orders` gives its name up, and another table takes it. -/
def reused : List TableEvent := [.rename mainOrders ⟨"main","orders_old"⟩,.create 8 mainOrders]

def ordersByName : DMLConsumer Nat where
  platform := .plain
  config := ordersConfig .error
  owner := {}
  table := some "orders"
  isDml := rfl
  onePin := by decide

end CdcPins
