import DucklakeCdc.Brackets
import DucklakeCdc.RetryPolicy

/-!
Opening and closing a consumer (`__enter__`, `__exit__`): the connection it derives, the
client it keeps, the sinks it opens. Setup is a program over the catalog; everything else
that may fail is answered by `Replies`, one for each call.
-/
namespace CdcLifecycle
open Programs CdcRetry Brackets
variable {κ δ : Type}

/-- The caller's own lake connection, the one given as `connection=` or inside `client=`,
    and those a consumer derives, in order. -/
inductive Connection where
  | lake
  | given
  | derived (number : Nat)
  deriving DecidableEq, Repr

inductive Wiring where
  | derives | connection | client
  deriving DecidableEq, Repr

structure Consumer (κ : Type) where
  wiring : Wiring := .derives
  sinks : List κ := []
  retryPolicy : RetryPolicy := RetryPolicy.default

/-- `client` is the connection the cached `CDCClient` was built on. `closed` lists the
    connections whose `close()` was called, `derivedCount` and `sinkLog` what else was done. -/
structure Lifecycle (κ δ : Type) where
  client : Option Connection
  connection : Option Connection := none
  derivedConnection : Option Connection := none
  opened : Bool := false
  derivedCount : Nat := 0
  closed : List Connection := []
  sinkLog : List (Event κ) := []
  db : δ

def Consumer.fresh (c : Consumer κ) (db : δ) : Lifecycle κ δ where
  client := if c.wiring = .client then some .given else none
  db := db

/-- What one `open()` or `close()` meets. `setup` is the setup on a connection that is
    open, `onClosed` what a closed one raises instead. -/
structure Replies (κ δ : Type) where
  derive : Option Exc := none
  prewarm : Option Exc := none
  setup : EStateM Exc δ Unit := pure ()
  sleep : ℚ → EStateM Exc δ Unit := fun _ => pure ()
  onClosed : Exc := .raised .otherException "Connection already closed!"
  openSink : κ → Option Exc := fun _ => none
  rollbackSink : κ → Option Exc := fun _ => none
  closeSink : κ → Option Exc := fun _ => none
  closeConnection : Option Exc := none

abbrev Owner (κ δ : Type) := EStateM Exc (Lifecycle κ δ)

def raiseIf (failure : Option Exc) : Owner κ δ Unit :=
  match failure with
  | some e => throw e
  | none => pure ()

def deriveConnection (r : Replies κ δ) : Owner κ δ Connection := do
  raiseIf r.derive
  let s ← get
  set { s with derivedCount := s.derivedCount + 1 }
  pure (.derived s.derivedCount)

/-- The branch of `__enter__` that builds the client; it stands outside the `try`. -/
def buildClient (c : Consumer κ) (r : Replies κ δ) : Owner κ δ Connection := do
  let connection ←
    if c.wiring = .connection then do
      modify fun s => { s with connection := some .given }
      pure Connection.given
    else do
      let derived ← deriveConnection r
      modify fun s => { s with connection := some derived, derivedConnection := some derived }
      pure derived
  raiseIf r.prewarm
  modify fun s => { s with client := some connection }
  pure connection

def resolveConnection (c : Consumer κ) (r : Replies κ δ) : Owner κ δ Connection := do
  let s ← get
  match s.client with
  | none => buildClient c r
  | some connection => do
    modify fun s => { s with connection := some connection }
    pure connection

def retried (c : Consumer κ) (r : Replies κ δ) : EStateM Exc δ Unit :=
  c.retryPolicy.run r.sleep r.setup

def setupOn (c : Consumer κ) (r : Replies κ δ) (connection : Connection) : Owner κ δ Unit := do
  let s ← get
  within Lifecycle.db (fun s db => { s with db := db })
    (if connection ∈ s.closed then c.retryPolicy.run r.sleep (throw r.onClosed) else retried c r)

def openSink (r : Replies κ δ) (sink : κ) : Owner κ δ Unit := do
  raiseIf (r.openSink sink)
  modify fun s => { s with sinkLog := s.sinkLog ++ [.opened sink] }

def closeSink (answer : κ → Option Exc) (sink : κ) : Owner κ δ Unit := do
  modify fun s => { s with sinkLog := s.sinkLog ++ [.closed sink] }
  raiseIf (answer sink)

/-- Close one sink after the other; an `Exception` is logged, anything else ends the loop. -/
def closeEach (answer : κ → Option Exc) : List κ → Owner κ δ Unit
  | [] => pure ()
  | sink :: rest => do
    tryExcept Exc.isException (closeSink answer sink) fun _ => pure ()
    closeEach answer rest

def openEach (r : Replies κ δ) (opened : List κ) : List κ → Owner κ δ Unit
  | [] => pure ()
  | sink :: rest => do
    tryExcept caughtByBaseException (openSink r sink) fun e => do
      closeEach r.rollbackSink opened.reverse
      throw e
    openEach r (opened ++ [sink]) rest

def openSinks (c : Consumer κ) (r : Replies κ δ) : Owner κ δ Unit := openEach r [] c.sinks

def closeSinksQuietly (c : Consumer κ) (r : Replies κ δ) : Owner κ δ Unit :=
  closeEach r.closeSink c.sinks.reverse

def closeDerivedConnection (r : Replies κ δ) : Owner κ δ Unit := do
  let s ← get
  match s.derivedConnection with
  | none => pure ()
  | some connection => do
    set { s with derivedConnection := none }
    tryExcept Exc.isException
      (do
        modify fun s => { s with closed := s.closed ++ [connection] }
        raiseIf r.closeConnection)
      fun _ => pure ()

def attempt (c : Consumer κ) (r : Replies κ δ) (connection : Connection) : Owner κ δ Unit := do
  setupOn c r connection
  openSinks c r
  modify fun s => { s with opened := true }

def guarded (c : Consumer κ) (r : Replies κ δ) (connection : Connection) : Owner κ δ Unit :=
  tryExcept caughtByBaseException (attempt c r connection) fun e => do
    closeSinksQuietly c r
    closeDerivedConnection r
    throw e

def enter (c : Consumer κ) (r : Replies κ δ) : Owner κ δ Unit := do
  let connection ← resolveConnection c r
  guarded c r connection

def exit (c : Consumer κ) (r : Replies κ δ) : Owner κ δ Unit := do
  modify fun s => { s with opened := false }
  closeSinksQuietly c r
  closeDerivedConnection r

/-- `open()` and `with` run `enter`, `close()` and the end of `with` run `exit`. -/
inductive Call (κ δ : Type) where
  | opens (r : Replies κ δ)
  | closes (r : Replies κ δ)

def Call.run (c : Consumer κ) : Call κ δ → Owner κ δ Unit
  | .opens r => enter c r
  | .closes r => exit c r

def step (c : Consumer κ) (s : Lifecycle κ δ) (call : Call κ δ) : Lifecycle κ δ :=
  finalState (call.run c) s

section
variable {c : Consumer κ} {r : Replies κ δ} {s : Lifecycle κ δ}
variable {ok : Unit → Lifecycle κ δ → Prop} {err : Exc → Lifecycle κ δ → Prop}

@[simp] theorem caughtByBaseException_exc (e : Exc) : caughtByBaseException e = true := rfl

@[simp] theorem ends_raiseIf {failure : Option Exc} :
    Ends (raiseIf failure) s ok err ↔
      match failure with
      | some e => err e s
      | none => ok () s := by
  cases failure <;> rfl

def interrupts (answer : Option Exc) : Bool := answer.any fun e => !e.isException

def reached (answer : κ → Option Exc) : List κ → List κ
  | [] => []
  | sink :: rest => if interrupts (answer sink) then [sink] else sink :: reached answer rest

theorem reached_append {answer : κ → Option Exc} {first rest : List κ}
    (quiet : ∀ sink ∈ first, interrupts (answer sink) = false) :
    reached answer (first ++ rest) = first ++ reached answer rest := by
  induction first with
  | nil => rfl
  | cons sink others ih =>
    rw [List.cons_append, reached, quiet sink List.mem_cons_self]
    simp only [Bool.false_eq_true, if_false, List.cons_append, List.cons.injEq, true_and]
    apply ih
    intro other member
    exact quiet other (List.mem_cons_of_mem _ member)

theorem reached_all {answer : κ → Option Exc} {sinks : List κ}
    (quiet : ∀ sink ∈ sinks.tail, interrupts (answer sink) = false) :
    reached answer sinks.reverse = sinks.reverse := by
  cases sinks with
  | nil => rfl
  | cons first rest =>
    rw [List.reverse_cons, reached_append]
    · simp [reached]
    · intro sink member
      exact quiet sink (List.mem_reverse.mp member)

def logged (s : Lifecycle κ δ) (events : List (Event κ)) : Lifecycle κ δ :=
  { s with sinkLog := s.sinkLog ++ events }

theorem logged_logged (events events' : List (Event κ)) :
    logged (logged s events) events' = logged s (events ++ events') := by
  simp [logged]

theorem ends_closeSink_quietly {answer : κ → Option Exc} {sink : κ} :
    Ends (tryExcept Exc.isException (closeSink answer sink) fun _ => pure ()) s ok err ↔
      if interrupts (answer sink) then ∀ e, answer sink = some e → err e (logged s [.closed sink])
      else ok () (logged s [.closed sink]) := by
  unfold closeSink
  rw [ends_tryExcept, ends_bind, ends_modify, ends_raiseIf]
  cases answered : answer sink with
  | none => simp [interrupts, logged]
  | some e => cases caught : e.isException <;> simp [interrupts, caught, logged]

theorem ends_closeEach {answer : κ → Option Exc} {sinks : List κ}
    (through : (∀ sink ∈ sinks, interrupts (answer sink) = false) →
      ok () (logged s (sinks.map .closed)))
    (cut : ∀ e, (∃ sink ∈ sinks, interrupts (answer sink) = true) →
      err e (logged s ((reached answer sinks).map .closed))) :
    Ends (closeEach answer sinks) s ok err := by
  induction sinks generalizing s with
  | nil =>
    rw [closeEach, ends_pure]
    have done := through (by simp)
    simpa [logged] using done
  | cons sink rest ih =>
    rw [closeEach, ends_bind, ends_closeSink_quietly]
    cases stops : interrupts (answer sink) with
    | true =>
      rw [if_pos rfl]
      intro e _
      have ended := cut e ⟨sink,List.mem_cons_self,stops⟩
      simpa [reached, stops] using ended
    | false =>
      rw [if_neg Bool.false_ne_true]
      apply ih
      · intro quiet
        rw [logged_logged]
        apply through
        intro other member
        rcases List.mem_cons.mp member with same | later
        · rw [same, stops]
        · exact quiet other later
      · intro e facts
        obtain ⟨other,later,stopped⟩ := facts
        have ended := cut e ⟨other,List.mem_cons_of_mem _ later,stopped⟩
        rw [logged_logged]
        simpa [reached, stops] using ended

/-- Some sink's `close()` raises past `except Exception`. -/
def SweepInterrupted (c : Consumer κ) (r : Replies κ δ) : Prop :=
  ∃ sink ∈ c.sinks, interrupts (r.closeSink sink) = true

theorem ends_closeSinksQuietly
    (through : ¬ SweepInterrupted c r → ok () (logged s (c.sinks.reverse.map .closed)))
    (cut : ∀ e, SweepInterrupted c r →
      err e (logged s ((reached r.closeSink c.sinks.reverse).map .closed))) :
    Ends (closeSinksQuietly c r) s ok err := by
  apply ends_closeEach
  · intro quiet
    apply through
    intro facts
    obtain ⟨sink,member,stops⟩ := facts
    rw [quiet sink (List.mem_reverse.mpr member)] at stops
    contradiction
  · intro e facts
    obtain ⟨sink,member,stops⟩ := facts
    exact cut e ⟨sink,List.mem_reverse.mp member,stops⟩

def released (s : Lifecycle κ δ) : Lifecycle κ δ :=
  { s with derivedConnection := none, closed := s.closed ++ s.derivedConnection.toList }

theorem ends_closeDerivedConnection (done : ok () (released s))
    (raised : ∀ e, interrupts r.closeConnection = true → err e (released s)) :
    Ends (closeDerivedConnection r) s ok err := by
  unfold closeDerivedConnection
  rw [ends_bind, ends_get]
  cases derived : s.derivedConnection with
  | none =>
    have same : released s = s := by
      cases s
      cases derived
      simp [released]
    rw [same] at done
    exact done
  | some connection =>
    have same : released s =
        { s with derivedConnection := none, closed := s.closed ++ [connection] } := by
      simp [released, derived]
    rw [same] at done raised
    simp only [ends_bind, ends_set, ends_tryExcept, ends_modify, ends_raiseIf]
    cases answered : r.closeConnection with
    | none => exact done
    | some e =>
      simp only
      split
      · exact done
      · rename_i caught
        exact raised e (by simp [interrupts, answered, caught])

theorem ends_cleanup (e : Exc) :
    Ends (do
        closeSinksQuietly c r
        closeDerivedConnection r
        throw e : Owner κ δ Unit) s (fun _ _ => False)
      (fun e' t => t.db = s.db ∧
        (¬ SweepInterrupted c r → interrupts r.closeConnection = false → e' = e)) := by
  rw [ends_bind]
  apply ends_closeSinksQuietly
  · intro _
    rw [ends_bind]
    apply ends_closeDerivedConnection
    · exact ⟨rfl,fun _ _ => rfl⟩
    · intro e' interrupting
      refine ⟨rfl,?_⟩
      intro _ quiet
      rw [quiet] at interrupting
      contradiction
  · intro e' interrupted
    exact ⟨rfl,fun quiet => absurd interrupted quiet⟩

def Accepts (c : Consumer κ) (r : Replies κ δ) (db : δ) : Prop :=
  returns (retried c r) db = true ∧ ∀ sink ∈ c.sinks, r.openSink sink = none

def Succeeds (c : Consumer κ) (r : Replies κ δ) (connection : Connection)
    (s : Lifecycle κ δ) : Prop :=
  connection ∉ s.closed ∧ Accepts c r s.db

theorem ends_setupOn {connection : Connection}
    (done : ∀ db, connection ∉ s.closed → returns (retried c r) s.db = true →
      ok () { s with db := db })
    (failed : ∀ e db, ¬ (connection ∉ s.closed ∧ returns (retried c r) s.db = true) →
      err e { s with db := db }) :
    Ends (setupOn c r connection) s ok err := by
  unfold setupOn
  rw [ends_bind, ends_get, ends_within]
  split
  · rename_i shut
    apply ends_mono (ends_policy_raises c.retryPolicy _ s.db)
    · intro _ _ no
      exact no.elim
    · intro e db _
      exact failed e db fun ⟨live,_⟩ => live shut
    · intro db
      trivial
  · rename_i live
    apply ends_mono ends_returns
    · intro _ db returned
      exact done db live returned
    · intro e db raised
      apply failed e db
      intro facts
      obtain ⟨_,returned⟩ := facts
      rw [returned] at raised
      contradiction

theorem ends_openEach {opened sinks : List κ}
    (done : (∀ sink ∈ sinks, r.openSink sink = none) →
      ok () (logged s (sinks.map .opened)))
    (failed : ∀ e events, ¬ (∀ sink ∈ sinks, r.openSink sink = none) →
      err e (logged s events)) :
    Ends (openEach r opened sinks) s ok err := by
  induction sinks generalizing s opened with
  | nil =>
    rw [openEach, ends_pure]
    have finished := done (by simp)
    simpa [logged] using finished
  | cons sink rest ih =>
    rw [openEach, ends_bind, ends_tryExcept, openSink, ends_bind, ends_raiseIf]
    cases answered : r.openSink sink with
    | none =>
      rw [ends_modify]
      apply ih
      · intro others
        have finished := done (by simpa [answered] using others)
        simpa [logged] using finished
      · intro e events broken
        have ended := failed e (.opened sink :: events) (by simpa [answered] using broken)
        simpa [logged] using ended
    | some e =>
      have broken : ¬ ∀ other ∈ sink :: rest, r.openSink other = none := by simp [answered]
      simp only [caughtByBaseException_exc, if_true, ends_bind]
      apply ends_closeEach
      · intro _
        exact failed e _ broken
      · intro e' _
        exact failed e' _ broken

theorem ends_attempt {connection : Connection}
    (done : ∀ db, Succeeds c r connection s →
      ok () { s with db := db, sinkLog := s.sinkLog ++ c.sinks.map .opened, opened := true })
    (failed : ∀ e db events, ¬ Succeeds c r connection s → (c.sinks = [] → events = []) →
      err e { s with db := db, sinkLog := s.sinkLog ++ events }) :
    Ends (attempt c r connection) s ok err := by
  unfold attempt openSinks
  rw [ends_bind]
  apply ends_setupOn
  · intro db live returned
    rw [ends_bind]
    apply ends_openEach
    · intro opens
      exact done db ⟨live,returned,opens⟩
    · intro e events broken
      apply failed e db events
      · intro success
        exact broken success.2.2
      · intro no_sinks
        simp [no_sinks] at broken
  · intro e db broken
    have ended := failed e db [] (fun success => broken ⟨success.1,success.2.1⟩) fun _ => rfl
    simpa using ended

def swept (c : Consumer κ) (s : Lifecycle κ δ) : Lifecycle κ δ :=
  released (logged s (c.sinks.reverse.map .closed))

def cutOff (c : Consumer κ) (r : Replies κ δ) (s : Lifecycle κ δ) : Lifecycle κ δ :=
  logged s ((reached r.closeSink c.sinks.reverse).map .closed)

theorem ends_guarded {connection : Connection}
    (done : ∀ db, Succeeds c r connection s →
      ok () { s with db := db, sinkLog := s.sinkLog ++ c.sinks.map .opened, opened := true })
    (through : ∀ e db events, ¬ Succeeds c r connection s → (c.sinks = [] → events = []) →
      ¬ SweepInterrupted c r → err e (swept c { s with db := db, sinkLog := s.sinkLog ++ events }))
    (cut : ∀ e db events, ¬ Succeeds c r connection s → (c.sinks = [] → events = []) →
      SweepInterrupted c r → err e (cutOff c r { s with db := db, sinkLog := s.sinkLog ++ events })) :
    Ends (guarded c r connection) s ok err := by
  unfold guarded
  rw [ends_tryExcept]
  apply ends_attempt
  · exact done
  · intro e db events broken nothing
    simp only [caughtByBaseException_exc, if_true, ends_bind]
    apply ends_closeSinksQuietly
    · intro quiet
      apply ends_closeDerivedConnection
      · exact through e db events broken nothing quiet
      · intro e' _
        exact through e' db events broken nothing quiet
    · intro e' interrupted
      exact cut e' db events broken nothing interrupted

theorem ends_exit
    (through : ¬ SweepInterrupted c r → ok () (swept c { s with opened := false }) ∧
      ∀ e, err e (swept c { s with opened := false }))
    (cut : ∀ e, SweepInterrupted c r → err e (cutOff c r { s with opened := false })) :
    Ends (exit c r) s ok err := by
  unfold exit
  simp only [ends_bind, ends_modify]
  apply ends_closeSinksQuietly
  · intro quiet
    apply ends_closeDerivedConnection
    · exact (through quiet).1
    · intro e _
      exact (through quiet).2 e
  · exact cut

def drawn (c : Consumer κ) (s : Lifecycle κ δ) : Connection × Lifecycle κ δ :=
  if c.wiring = .connection then (.given,{ s with connection := some .given })
  else (.derived s.derivedCount,
    { s with
      derivedCount := s.derivedCount + 1
      connection := some (.derived s.derivedCount)
      derivedConnection := some (.derived s.derivedCount) })

theorem ends_enter_first (unbuilt : s.client = none)
    (refused : ∀ e, r.derive = some e → c.wiring ≠ .connection → err e s)
    (cold : ∀ e, r.prewarm = some e → (c.wiring = .connection ∨ r.derive = none) →
      err e (drawn c s).2)
    (built : r.prewarm = none → (c.wiring = .connection ∨ r.derive = none) →
      Ends (guarded c r (drawn c s).1) { (drawn c s).2 with client := some (drawn c s).1 }
        ok err) :
    Ends (enter c r) s ok err := by
  unfold enter resolveConnection buildClient
  simp only [ends_bind, ends_get, unbuilt]
  by_cases given : c.wiring = .connection
  · simp only [given, if_true, drawn, true_or, forall_const] at cold built ⊢
    simp only [ends_bind, ends_modify, ends_pure, ends_raiseIf]
    cases warm : r.prewarm with
    | some e => exact cold e warm
    | none => exact built warm
  · simp only [given, if_false, drawn, false_or] at cold built ⊢
    rw [ends_bind, deriveConnection, ends_bind, ends_raiseIf]
    cases derive : r.derive with
    | some e => exact refused e derive given
    | none =>
      simp only [ends_bind, ends_get, ends_set, ends_pure, ends_modify, ends_raiseIf]
      cases warm : r.prewarm with
      | some e => exact cold e warm derive
      | none => exact built warm derive

theorem ends_enter_again {connection : Connection} (built : s.client = some connection)
    (rest : Ends (guarded c r connection) { s with connection := some connection } ok err) :
    Ends (enter c r) s ok err := by
  unfold enter resolveConnection
  rw [ends_bind, ends_bind, ends_get, built]
  exact rest

end
end CdcLifecycle
