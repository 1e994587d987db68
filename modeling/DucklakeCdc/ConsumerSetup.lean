import DucklakeCdc.RetryPolicy
import Mathlib.Algebra.Order.Floor.Ring
import Mathlib.Data.List.Infix
import Mathlib.Data.Rat.Floor

/-!
What a consumer does to the catalog when it is opened (`_setup_consumer` and
`_apply_lease_policy`). Every catalog call takes place at a moment of its own: other
processes may have changed the entries, the clocks moved on, and the call may fail
before it takes effect.
-/
namespace CdcSetup
open Programs CdcRetry

structure ConsumerListEntry where
  consumerName : String
  ownerToken : Option (BitVec 128)
  ownerHeartbeatAt : Option ℚ
  leaseIntervalSeconds : Option Int
  deriving DecidableEq

def leaseFreshnessGraceSeconds : ℚ := 5

def leaseWaitPollInterval : ℚ := 1 / 2

def leaseIsAlive (entry : ConsumerListEntry) (now : ℚ) : Bool :=
  if entry.ownerToken.isNone then false
  else match entry.ownerHeartbeatAt with
    | none => true
    | some heartbeat =>
      let interval : ℚ := entry.leaseIntervalSeconds.getD 0
      let grace := max leaseFreshnessGraceSeconds (interval * (1 / 2))
      decide (now - heartbeat ≤ interval + grace)

inductive OnExists where
  | error | use | replace
  deriving DecidableEq, Repr

inductive LeasePolicy where
  | wait | takeover | error
  deriving DecidableEq, Repr

/-- The arguments `_ConsumerBase.__init__` accepts, as far as setup reads them. -/
structure Config where
  name : String
  onExists : OnExists := .use
  leasePolicy : LeasePolicy := .wait
  leaseWaitTimeout : ℚ := 30
  name_nonempty : name ≠ ""
  timeout_nonneg : 0 ≤ leaseWaitTimeout

def ordersConfig (onExists : OnExists) : Config where
  name := "orders"
  onExists := onExists
  name_nonempty := by decide
  timeout_nonneg := by decide

def ordersLease : ConsumerListEntry := ⟨"orders",some 7,some 0,some 30⟩

def consumerErrorContains (consumerName needle : String) : Exc → Bool
  | .raised _ message => named message
  | .caused _ message cause => named message || consumerErrorContains consumerName needle cause
where
  named (message : String) : Bool :=
    textContains ("consumer '" ++ consumerName ++ "'") message.toList &&
      textContains needle message.toList

def isDuplicateConsumerError (e : Exc) (consumerName : String) : Bool :=
  consumerErrorContains consumerName "already exists" e

def isMissingConsumerError (e : Exc) (consumerName : String) : Bool :=
  consumerErrorContains consumerName "does not exist" e

def isQueryError (e : Exc) : Bool := e.cls == .duckLakeQueryError

/-- What comes from outside the client: the extension's answers about a name that is
    taken or missing, which the client recognises by their text, and the characters
    Python prints as they are. -/
structure Platform where
  alreadyExists : String → Exc
  doesNotExist : String → Exc
  isPrintable : Char → Bool
  duplicate : ∀ name, isQueryError (alreadyExists name) = true ∧
    isDuplicateConsumerError (alreadyExists name) name = true
  missing : ∀ name, isQueryError (doesNotExist name) = true ∧
    isMissingConsumerError (doesNotExist name) name = true

theorem textContains_append (needle : String) (before after : List Char) :
    textContains needle (before ++ needle.toList ++ after) = true := by
  rw [textContains, List.any_eq_true]
  refine ⟨needle.toList ++ after,?_,?_⟩
  · rw [List.mem_tails, List.append_assoc]
    exact List.suffix_append _ _
  · exact List.isPrefixOf_iff_prefix.mpr (List.prefix_append _ _)

def queryFailed (message : String) : Exc :=
  .caused .duckLakeQueryError "DuckLake CDC query failed" (.raised .otherException message)

theorem queryFailed_contains (consumerName needle : String) :
    consumerErrorContains consumerName needle
      (queryFailed ("consumer '" ++ consumerName ++ "' " ++ needle)) = true := by
  have quoted := textContains_append ("consumer '" ++ consumerName ++ "'") [] (" " ++ needle).toList
  have told := textContains_append needle ("consumer '" ++ consumerName ++ "' ").toList []
  have named : consumerErrorContains.named consumerName needle
      ("consumer '" ++ consumerName ++ "' " ++ needle) = true := by
    simp only [consumerErrorContains.named, Bool.and_eq_true]
    constructor
    · simpa using quoted
    · simpa using told
  simp [queryFailed, consumerErrorContains, named]

def Platform.plain : Platform where
  alreadyExists name := queryFailed ("consumer '" ++ name ++ "' " ++ "already exists")
  doesNotExist name := queryFailed ("consumer '" ++ name ++ "' " ++ "does not exist")
  isPrintable _ := true
  duplicate name := ⟨rfl,queryFailed_contains name "already exists"⟩
  missing name := ⟨rfl,queryFailed_contains name "does not exist"⟩

section
variable (p : Platform)

def apostrophe : Char := Char.ofNat 39

def backslash : Char := Char.ofNat 92

def hexDigits (width n : Nat) : List Char :=
  let digits := Nat.toDigits 16 n
  List.replicate (width - digits.length) '0' ++ digits

def reprChar (quote c : Char) : List Char :=
  if c = quote ∨ c = backslash then [backslash,c]
  else if c.val = 10 then [backslash,'n']
  else if c.val = 13 then [backslash,'r']
  else if c.val = 9 then [backslash,'t']
  else if 0x20 ≤ c.val ∧ c.val < 0x7f then [c]
  else if 0x7f < c.val ∧ p.isPrintable c then [c]
  else if c.val ≤ 0xff then backslash :: 'x' :: hexDigits 2 c.toNat
  else if c.val ≤ 0xffff then backslash :: 'u' :: hexDigits 4 c.toNat
  else backslash :: 'U' :: hexDigits 8 c.toNat

/-- `repr` of a string: double quotes only around an apostrophe without double quotes. -/
def pyRepr (text : String) : String :=
  let chars := text.toList
  let quote := if chars.contains apostrophe && !chars.contains '"' then '"' else apostrophe
  String.ofList (quote :: chars.flatMap (reprChar p quote) ++ [quote])

/-- `f"{seconds:.1f}"` of a number that is not negative. -/
def formatTenths (seconds : ℚ) : String :=
  let down := ⌊seconds * 10⌋
  let rest := seconds * 10 - down
  let tenths := if rest < 1 / 2 ∨ (rest = 1 / 2 ∧ down % 2 = 0) then down else down + 1
  toString (tenths / 10) ++ "." ++ toString (tenths % 10)

def uuidText (token : BitVec 128) : String :=
  let digits := hexDigits 32 token.toNat
  String.ofList (digits.take 8 ++ '-' :: (digits.drop 8).take 4 ++ '-' :: (digits.drop 12).take 4 ++
    '-' :: (digits.drop 16).take 4 ++ '-' :: digits.drop 20)

def ownerText (entry : ConsumerListEntry) : String := (entry.ownerToken.map uuidText).getD "None"

def existsError (c : Config) : Exc :=
  .raised .runtimeError ("consumer " ++ pyRepr p c.name ++ " already exists")

def leasedError (c : Config) (entry : ConsumerListEntry) : Exc :=
  .raised .runtimeError ("consumer " ++ pyRepr p c.name ++ " is leased by " ++ ownerText entry ++
    " and lease_policy='error' was requested")

def waitedError (c : Config) (entry : ConsumerListEntry) : Exc :=
  .raised .timeoutError ("timed out after " ++ formatTenths c.leaseWaitTimeout ++
    "s waiting for consumer " ++ pyRepr p c.name ++ " lease (held by " ++ ownerText entry ++ ")")

end

abbrev Catalog := List ConsumerListEntry

inductive CatalogCall where
  | create (name : String)
  | list
  | forceRelease (name : String)
  | drop (name : String)
  deriving DecidableEq, Repr

/-- What a catalog call meets: what other processes did to the catalog before it, how
    long it took, the wall clock after it, and the failure that stopped it, if any. -/
structure Moment where
  others : Catalog → Catalog := id
  elapsed : ℚ := 0
  wall : ℚ := 0
  fault : Option Exc := none

/-- `moments` is read at the number of calls made so far. -/
structure Registry where
  entries : Catalog
  wall : ℚ := 0
  mono : ℚ := 0
  calls : List CatalogCall := []
  moments : Nat → Moment

def Registry.moment (s : Registry) : Moment := s.moments s.calls.length

def Registry.arrive (s : Registry) (call : CatalogCall) : Registry :=
  { s with
    entries := s.moment.others s.entries
    wall := s.moment.wall
    mono := s.mono + max 0 s.moment.elapsed
    calls := s.calls ++ [call] }

abbrev Setup := EStateM Exc Registry

def callCatalog {α : Type} (call : CatalogCall) (effect : Catalog → Except Exc (α × Catalog)) :
    Setup α := do
  let s ← get
  let met := s.arrive call
  set met
  match s.moment.fault with
  | some e => throw e
  | none => match effect met.entries with
    | .error e => throw e
    | .ok (a,entries) => do
      set { met with entries := entries }
      pure a

def Catalog.has (entries : Catalog) (name : String) : Bool :=
  entries.any fun entry => entry.consumerName == name

def createdEntry (name : String) : ConsumerListEntry := ⟨name,none,none,none⟩

def releaseEntry (name : String) (entry : ConsumerListEntry) : ConsumerListEntry :=
  if entry.consumerName = name then { entry with ownerToken := none, ownerHeartbeatAt := none }
  else entry

section
variable (p : Platform)

def cdcConsumerCreate (name : String) : Setup Unit :=
  callCatalog (.create name) fun entries =>
    if entries.has name then .error (p.alreadyExists name)
    else .ok ((),entries ++ [createdEntry name])

def cdcListConsumers : Setup Catalog :=
  callCatalog .list fun entries => .ok (entries,entries)

def cdcConsumerForceRelease (name : String) : Setup Unit :=
  callCatalog (.forceRelease name) fun entries =>
    if entries.has name then .ok ((),entries.map (releaseEntry name))
    else .error (p.doesNotExist name)

def cdcConsumerDrop (name : String) : Setup Unit :=
  callCatalog (.drop name) fun entries =>
    if entries.has name then .ok ((),entries.filter fun entry => entry.consumerName ≠ name)
    else .error (p.doesNotExist name)

def sleep (seconds : ℚ) : Setup Unit :=
  modify fun s => { s with mono := s.mono + max 0 seconds }

def lookup (name : String) (entries : Catalog) : Option ConsumerListEntry :=
  entries.find? fun entry => entry.consumerName == name

def lookupConsumer (c : Config) : Setup (Option ConsumerListEntry) := do
  let entries ← cdcListConsumers
  pure (lookup c.name entries)

/-- The entry, unless it is missing or its lease is not alive. -/
def leased (found : Option ConsumerListEntry) (now : ℚ) : Option ConsumerListEntry :=
  found.filter fun entry => leaseIsAlive entry now

theorem lookupConsumer_mono {c : Config} {s t : Registry} {found : Option ConsumerListEntry}
    (looked : (lookupConsumer c).run s = .ok found t) : s.mono ≤ t.mono := by
  have forward : s.mono ≤ (s.arrive .list).mono := by simp [Registry.arrive]
  have ends : Ends (lookupConsumer c) s (fun _ t => s.mono ≤ t.mono) (fun _ _ => True) := by
    unfold lookupConsumer cdcListConsumers callCatalog
    simp only [ends_bind, ends_get, ends_set]
    cases s.moment.fault with
    | some e => trivial
    | none => exact forward
  simpa only [Ends, looked] using ends

theorem wait_shrinks {deadline mono mono' : ℚ} (forward : mono ≤ mono') (due : ¬ deadline ≤ mono') :
    ⌈2 * (deadline - (mono' + max 0 leaseWaitPollInterval))⌉.toNat <
      ⌈2 * (deadline - mono)⌉.toNat := by
  have step : 2 * (deadline - (mono' + max 0 leaseWaitPollInterval)) =
      2 * (deadline - mono') - 1 := by
    unfold leaseWaitPollInterval
    norm_num
    ring
  rw [step, Int.ceil_sub_one]
  have positive : 0 < ⌈2 * (deadline - mono')⌉ := Int.ceil_pos.mpr (by linarith)
  have below : ⌈2 * (deadline - mono')⌉ ≤ ⌈2 * (deadline - mono)⌉ :=
    Int.ceil_le_ceil (by linarith)
  omega

/-- The `while True` of the wait policy. Each round adds the poll interval to the clock,
    so it ends. -/
def awaitLease (c : Config) (deadline : ℚ) : Setup Unit := fun s =>
  match _looked : (lookupConsumer c).run s with
  | .error e t => .error e t
  | .ok found t =>
    match leased found t.wall with
    | none => .ok () t
    | some entry =>
      if _due : deadline ≤ t.mono then .error (waitedError p c entry) t
      else awaitLease c deadline { t with mono := t.mono + max 0 leaseWaitPollInterval }
termination_by s => ⌈2 * (deadline - s.mono)⌉.toNat
decreasing_by exact wait_shrinks (lookupConsumer_mono _looked) _due

def applyLeasePolicy (c : Config) : Setup Unit := do
  let found ← lookupConsumer c
  let s ← get
  match leased found s.wall with
  | none => pure ()
  | some entry => match c.leasePolicy with
    | .error => throw (leasedError p c entry)
    | .takeover => cdcConsumerForceRelease p c.name
    | .wait => do
      let s ← get
      awaitLease p c (s.mono + c.leaseWaitTimeout)

def ignoreMissing (name : String) (operation : Setup Unit) : Setup Unit :=
  tryExcept isQueryError operation fun e =>
    if !isMissingConsumerError e name then throw e else pure ()

def dropConsumerIfExists (c : Config) : Setup Unit := do
  ignoreMissing c.name (cdcConsumerForceRelease p c.name)
  ignoreMissing c.name (cdcConsumerDrop p c.name)

def tryCreate (c : Config) : Setup Bool :=
  tryExcept isQueryError
    (do
      cdcConsumerCreate p c.name
      pure true)
    fun e => if !isDuplicateConsumerError e c.name then throw e else pure false

def setupConsumer (c : Config) : Setup Unit :=
  match c.onExists with
  | .replace => do
    dropConsumerIfExists p c
    cdcConsumerCreate p c.name
  | onExists => do
    let created ← tryCreate p c
    if created then pure ()
    else if onExists = .error then throw (existsError p c)
    else pure ()

def setupAndApplyLeasePolicy (c : Config) : Setup Unit := do
  setupConsumer p c
  if c.onExists = .replace then pure ()
  else applyLeasePolicy p c

def retriedSetup (c : Config) (policy : RetryPolicy) : Setup Unit :=
  policy.run sleep (setupAndApplyLeasePolicy p c)

end

section
variable {p : Platform} {c : Config} {s : Registry}

@[simp] theorem arrive_moments (call : CatalogCall) : (s.arrive call).moments = s.moments := rfl

@[simp] theorem arrive_calls (call : CatalogCall) :
    (s.arrive call).calls = s.calls ++ [call] := rfl

theorem ends_callCatalog {α : Type} {call : CatalogCall}
    {effect : Catalog → Except Exc (α × Catalog)} {ok : α → Registry → Prop}
    {err : Exc → Registry → Prop}
    (failed : ∀ e, s.moment.fault = some e → err e (s.arrive call))
    (refused : ∀ e, s.moment.fault = none → effect (s.arrive call).entries = .error e →
      err e (s.arrive call))
    (done : ∀ a entries, s.moment.fault = none →
      effect (s.arrive call).entries = .ok (a,entries) →
      ok a { s.arrive call with entries := entries }) :
    Ends (callCatalog call effect) s ok err := by
  unfold callCatalog
  simp only [ends_bind, ends_get, ends_set]
  cases fault : s.moment.fault with
  | some e => exact failed e fault
  | none =>
    cases answer : effect (s.arrive call).entries with
    | error e => exact refused e fault answer
    | ok result =>
      obtain ⟨a,entries⟩ := result
      exact done a entries fault answer

theorem ends_lookupConsumer {ok : Option ConsumerListEntry → Registry → Prop}
    {err : Exc → Registry → Prop}
    (failed : ∀ e, s.moment.fault = some e → err e (s.arrive .list))
    (found : s.moment.fault = none →
      ok (lookup c.name (s.arrive .list).entries) (s.arrive .list)) :
    Ends (lookupConsumer c) s ok err := by
  unfold lookupConsumer
  rw [ends_bind]
  apply ends_callCatalog failed
  · intro e _ refused
    cases refused
  · intro a entries clean listed
    cases listed
    exact found clean

theorem lookup_of_free {name : String} {entries : Catalog} (free : entries.has name = false) :
    lookup name entries = none := by
  simpa [Catalog.has, lookup] using free

theorem has_of_lookup {name : String} {entries : Catalog} {entry : ConsumerListEntry}
    (found : lookup name entries = some entry) : entries.has name = true := by
  cases free : entries.has name with
  | true => rfl
  | false =>
    rw [lookup_of_free free] at found
    contradiction

theorem leased_some {found : Option ConsumerListEntry} {now : ℚ} {entry : ConsumerListEntry}
    (held : leased found now = some entry) : found = some entry ∧ leaseIsAlive entry now = true := by
  simpa [leased, Option.filter_eq_some_iff] using held

theorem awaitLease_eq (deadline : ℚ) :
    awaitLease p c deadline = (do
      let found ← lookupConsumer c
      let s ← get
      match leased found s.wall with
      | none => pure ()
      | some entry =>
        if deadline ≤ s.mono then throw (waitedError p c entry)
        else do
          sleep leaseWaitPollInterval
          awaitLease p c deadline) := by
  funext s
  rw [awaitLease]
  change _ = EStateM.bind _ _ s
  unfold EStateM.bind
  split
  · rename_i e t looked
    rw [show lookupConsumer c s = .error e t from looked]
  · rename_i found t looked
    rw [show lookupConsumer c s = .ok found t from looked]
    have got : ∀ next : Registry → Setup Unit, (get >>= next : Setup Unit) t = next t t :=
      fun _ => rfl
    change _ = (get >>= _ : Setup Unit) t
    rw [got]
    cases leased found t.wall with
    | none => rfl
    | some entry =>
      by_cases due : deadline ≤ t.mono
      · simp only [if_pos due, dif_pos due]
        rfl
      · simp only [if_neg due, dif_neg due]
        rfl

theorem ends_awaitLease_look {deadline : ℚ} {ok : Unit → Registry → Prop}
    {err : Exc → Registry → Prop} :
    Ends (awaitLease p c deadline) s ok err ↔
      Ends (lookupConsumer c) s
        (fun found t => match leased found t.wall with
          | none => ok () t
          | some entry =>
            if deadline ≤ t.mono then err (waitedError p c entry) t
            else Ends (awaitLease p c deadline)
              { t with mono := t.mono + max 0 leaseWaitPollInterval } ok err) err := by
  conv_lhs => rw [awaitLease_eq, ends_bind]
  apply ends_congr
  intro found t
  rw [ends_bind, ends_get]
  split
  · rw [ends_pure]
  · split
    · rw [ends_throw]
    · rw [ends_bind]
      rfl

/-- The rule of the wait loop: `inv` holds before each look. -/
theorem ends_awaitLease (inv : Registry → Prop) {deadline : ℚ} {ok : Unit → Registry → Prop}
    {err : Exc → Registry → Prop}
    (look : ∀ s, inv s → Ends (lookupConsumer c) s
      (fun found t => match leased found t.wall with
        | none => ok () t
        | some entry =>
          if deadline ≤ t.mono then err (waitedError p c entry) t
          else inv { t with mono := t.mono + max 0 leaseWaitPollInterval }) err)
    (start : inv s) : Ends (awaitLease p c deadline) s ok err := by
  induction s using awaitLease.induct c deadline with
  | case1 s e t looked =>
    have answer := look s start
    rw [ends_awaitLease_look]
    simpa only [Ends, looked] using answer
  | case2 s found t looked free =>
    have answer := look s start
    rw [ends_awaitLease_look]
    simpa only [Ends, looked, free] using answer
  | case3 s found t looked entry held due =>
    have answer := look s start
    rw [ends_awaitLease_look]
    simpa only [Ends, looked, held, if_pos due] using answer
  | case4 s found t looked entry held due ih =>
    have answer := look s start
    rw [ends_awaitLease_look]
    simp only [Ends, looked, held, if_neg due] at answer ⊢
    exact ih answer

end
end CdcSetup
