import DucklakeCdc.DeliveryProtocol
import Mathlib.Logic.Function.Basic

/-!
The multi-consumer host (`CDCApp`, `_Worker`) as a machine. The main thread runs the
code of one call at a time, a list of instructions; a signal handler runs on top of the
instruction it interrupts. Between two instructions the worker threads take steps of
their own, each along the delivery protocol. Who moves next is up to the schedule.
-/
namespace CdcApp
open Histories CdcBatch CdcRetry CdcLoop DeliveryProtocol

inductive Signal where
  | sigint | sigterm
  deriving DecidableEq, Repr

/-- What `signal.signal` has for a signal: the handler from before the app, or
    `_handle_signal`. -/
inductive Handler where
  | previous | handleSignal
  deriving DecidableEq, Repr

inductive Thread where
  | absent | alive | ended
  deriving DecidableEq, Repr

/-- Where a worker is between the stop check of its loop and the end of its listen. -/
inductive Asking where
  | no | checked | listening
  deriving DecidableEq, Repr

/-- A `_Worker` with its thread, and its consumer as far as the app goes: open or not,
    and how far the delivery in hand has come. -/
structure Worker (ι : Type) where
  entered : Bool := false
  stopEvent : Bool := false
  thread : Thread := .absent
  consumerOpen : Bool := false
  phase : Phase ι := .ended
  asking : Asking := .no

inductive Deed (ι : Type) where
  | passedCheck
  | listens
  | did (event : Event ι)
  deriving DecidableEq

inductive AppEvent (κ ι : Type) where
  | entered (name : κ)
  | exited (name : κ)
  | reached (name : κ) (alive : Bool)
  | ran (name : κ) (infinite : Bool)
  | warned (name : κ)
  | handled
  | worker (name : κ) (deed : Deed ι)
  deriving DecidableEq

/-- What `CDCApp` was built with. `accepts` tells whether `signal.signal` lets the app
    install its handler. -/
structure Config (κ : Type) where
  names : List κ
  distinct : names.Nodup
  sinks : κ → List Sink
  installSignals : Option Bool := none
  onMainThread : Bool := true
  accepts : Signal → Bool := fun _ => true
  shutdownTimeout : ℚ := 30
  nonneg : 0 ≤ shutdownTimeout := by decide

/-- The app's fields and its surroundings. `inside` tells whether a `with` block is
    running, `requested` whether a stop signal was handled in it. -/
structure App (κ ι : Type) where
  workers : κ → Worker ι := fun _ => {}
  opened : Bool := false
  stopping : Bool := false
  locked : Bool := false
  handlers : Signal → Handler := fun _ => .previous
  installedHandlers : Signal → Option Handler := fun _ => none
  clock : ℚ := 0
  deadline : ℚ := 0
  inside : Bool := false
  requested : Bool := false
  log : List (AppEvent κ ι) := []

inductive Instr (κ : Type) where
  | acquire
  | release
  | requireOpened
  | requireWorkers
  | enterWorker (name : κ)
  | exitWorker (name : κ)
  | startWorker (name : κ) (infinite : Bool)
  | requestStop (name : κ)
  | setDeadline
  | join (name : κ)
  | warnIfAlive (name : κ)
  | setOpened (value : Bool)
  | setStopping (value : Bool)
  | installSignalHandlers
  | restoreSignalHandlers
  | tryWait
  | waitForWorkers
  | unlessDone
  | pause
  | exceptInterrupt
  | handled
  | raiseAgain (e : Exc)
  deriving DecidableEq

inductive Call where
  | enter
  | exit
  | run (infinite : Bool)
  | consumers
  | stats
  deriving DecidableEq, Repr

section
variable {κ ι : Type} [DecidableEq κ]

def Config.installs (cfg : Config κ) (sig : Signal) : Bool :=
  cfg.installSignals != some false && (cfg.installSignals.isSome || cfg.onMainThread) &&
    cfg.accepts sig

section
variable (cfg : Config κ)

def lookUp : List (Instr κ) := [.acquire,.release]

def enterCode : List (Instr κ) :=
  lookUp ++ cfg.names.map .enterWorker ++ [.installSignalHandlers,.setOpened true]

def exitCode : List (Instr κ) :=
  [.setOpened false,.setStopping true] ++ lookUp ++ cfg.names.map .requestStop ++
    [.setDeadline] ++ cfg.names.flatMap (fun name => [.join name,.warnIfAlive name]) ++
    cfg.names.map .exitWorker ++ [.restoreSignalHandlers,.setStopping false]

def runCode (infinite : Bool) : List (Instr κ) :=
  [.requireOpened,.acquire,.requireWorkers] ++
    cfg.names.map (fun name => .startWorker name infinite) ++
    [.release,.tryWait,.waitForWorkers,.exceptInterrupt]

/-- What `run` does with a `KeyboardInterrupt` that comes while it waits. -/
def interruptedCode (e : Exc) : List (Instr κ) :=
  [.acquire] ++ cfg.names.map .requestStop ++ [.release,.raiseAgain e]

def handleSignalCode : List (Instr κ) :=
  [.setStopping true] ++ lookUp ++ cfg.names.map .requestStop ++ [.handled]

def callCode : Call → List (Instr κ)
  | .enter => enterCode cfg
  | .exit => exitCode cfg
  | .run infinite => runCode cfg infinite
  | .consumers => lookUp
  | .stats => lookUp

end

def Worker.isAlive (w : Worker ι) : Bool := w.thread == .alive

def App.isAlive (s : App κ ι) (name : κ) : Bool := (s.workers name).isAlive

def App.put (s : App κ ι) (name : κ) (w : Worker ι) : App κ ι :=
  { s with workers := Function.update s.workers name w }

def App.record (s : App κ ι) (event : AppEvent κ ι) : App κ ι := { s with log := s.log ++ [event] }

def App.enterWorker (s : App κ ι) (name : κ) : App κ ι :=
  if (s.workers name).entered then s
  else (s.put name { s.workers name with entered := true, consumerOpen := true }).record
    (.entered name)

def App.exitedWorker (s : App κ ι) (name : κ) (entered : Bool) : App κ ι :=
  if (s.workers name).entered then
    (s.put name { s.workers name with entered := entered, consumerOpen := false }).record
      (.exited name)
  else s

def Worker.started (w : Worker ι) (thread : Thread) : Worker ι :=
  { w with
    stopEvent := false
    thread := thread
    phase := if w.consumerOpen && thread == .alive then .ready else .ended
    asking := .no }

def App.startWorker (s : App κ ι) (name : κ) (infinite : Bool) : App κ ι :=
  let seen := s.record (.reached name (s.isAlive name))
  if (s.workers name).thread = .absent then
    (seen.put name ((s.workers name).started .alive)).record (.ran name infinite)
  else seen

def App.installSignalHandlers (cfg : Config κ) (s : App κ ι) : App κ ι :=
  { s with
    handlers := fun sig => if cfg.installs sig then .handleSignal else s.handlers sig
    installedHandlers := fun sig =>
      if cfg.installs sig then some (s.handlers sig) else s.installedHandlers sig }

def App.restoreSignalHandlers (s : App κ ι) : App κ ι :=
  { s with
    handlers := fun sig => (s.installedHandlers sig).getD (s.handlers sig)
    installedHandlers := fun _ => none }

def effect (cfg : Config κ) (s : App κ ι) : Instr κ → App κ ι
  | .acquire => { s with locked := true }
  | .release => { s with locked := false }
  | .enterWorker name => s.enterWorker name
  | .exitWorker name => s.exitedWorker name false
  | .startWorker name infinite => s.startWorker name infinite
  | .requestStop name => s.put name { s.workers name with stopEvent := true }
  | .setDeadline => { s with deadline := s.clock + cfg.shutdownTimeout }
  | .warnIfAlive name => if s.isAlive name then s.record (.warned name) else s
  | .setOpened value => { s with opened := value, inside := value }
  | .setStopping value => { s with stopping := value }
  | .installSignalHandlers => s.installSignalHandlers cfg
  | .restoreSignalHandlers => s.restoreSignalHandlers
  | .handled => { s with requested := s.inside }.record .handled
  | _ => s

/-- The instruction raised half way. -/
def halfWay (s : App κ ι) : Instr κ → App κ ι
  | .exitWorker name => s.exitedWorker name true
  | .startWorker name _ =>
    if (s.workers name).thread = .absent then s.put name ((s.workers name).started .ended) else s
  | _ => s

def outsideError : Exc := .raised .runtimeError "CDCApp.run() must be called inside `with app:`"

def noConsumersError : Exc := .raised .runtimeError "CDCApp has no consumers to run"

def refusal (cfg : Config κ) (s : App κ ι) : Instr κ → Option Exc
  | .requireOpened => if s.opened then none else some outsideError
  | .requireWorkers => if cfg.names.isEmpty then some noConsumersError else none
  | .raiseAgain e => some e
  | _ => none

def ready (s : App κ ι) : Instr κ → Bool
  | .acquire => !s.locked
  | .join name => !s.isAlive name || decide (s.deadline ≤ s.clock)
  | _ => true

/-- The code after the instruction. -/
def next (cfg : Config κ) (s : App κ ι) (rest : List (Instr κ)) : Instr κ → List (Instr κ)
  | .waitForWorkers => if s.stopping then rest else lookUp ++ .unlessDone :: rest
  | .unlessDone =>
    if cfg.names.all (fun name => !s.isAlive name) then rest
    else .pause :: .waitForWorkers :: rest
  | _ => rest

structure Machine (κ ι : Type) where
  app : App κ ι := {}
  code : List (Instr κ) := []
  raised : Option Exc := none

/-- An exception leaves every frame, and with them the lock; only the `except` clause of
    `run` stops it on its way. -/
def Machine.unwind (cfg : Config κ) (m : Machine κ ι) (s : App κ ι) (e : Exc) : Machine κ ι :=
  let waiting := m.code.contains .exceptInterrupt && !m.code.contains .tryWait
  let caught := waiting && e.cls == .keyboardInterrupt
  { app := { s with locked := false }
    code := if caught then interruptedCode cfg e else []
    raised := if caught then none else some e }

inductive Work (ι : Type) where
  | check
  | listen
  | listened (rows : List (Row ι))
  | write (batch : Batch ι) (raised : Option Exc)
  | commit (moved : Bool) (raised : Option Exc)
  | finish

def passes (sink : Sink) : Option Exc → Bool
  | none => true
  | some e => !sink.required && e.isException

def writes (sinks : List Sink) (batch : Batch ι) (i : Nat) (raised : Option Exc) :
    Option (Event ι × Phase ι) :=
  sinks[i]?.map fun sink =>
    (.wrote i batch raised,if passes sink raised then .delivering batch (i + 1) else .ended)

def advance (sinks : List Sink) : Phase ι → Work ι → Option (Event ι × Phase ι)
  | .ready, .listened rows => some (.listened rows,.ready)
  | .settled _, .listened rows => some (.listened rows,.ready)
  | .ready, .write batch raised => writes sinks batch 0 raised
  | .delivering batch i, .write _ raised => writes sinks batch i raised
  | .delivering batch i, .commit moved raised =>
    if i = sinks.length then
      some (.commitCalled batch moved raised,
        if raised.isNone then .settled batch else .delivering batch i)
    else none
  | _, _ => none

def Phase.isIdle : Phase ι → Bool
  | .ready | .settled _ => true
  | _ => false

def Worker.moved (sinks : List Sink) (w : Worker ι) (x : Work ι) :
    Option (Worker ι × Option (Deed ι)) :=
  (advance sinks w.phase x).map fun (event,phase) =>
    ({ w with asking := .no, phase := phase },some (.did event))

def Worker.work (sinks : List Sink) (w : Worker ι) (x : Work ι) :
    Option (Worker ι × Option (Deed ι)) :=
  if w.thread = .alive then
    match x with
    | .check =>
      if Phase.isIdle w.phase && w.asking == .no then
        if w.stopEvent then some ({ w with phase := .ended },none)
        else some ({ w with asking := .checked },some .passedCheck)
      else none
    | .listen =>
      if w.asking = .checked then some ({ w with asking := .listening },some .listens) else none
    | .listened rows => if w.asking = .listening then w.moved sinks (.listened rows) else none
    | .write batch raised => if w.asking = .no then w.moved sinks (.write batch raised) else none
    | .commit moved raised => if w.asking = .no then w.moved sinks (.commit moved raised) else none
    | .finish => some ({ w with thread := .ended, phase := .ended, asking := .no },none)
  else none

def App.work (s : App κ ι) (name : κ) (w : Worker ι) (deed : Option (Deed ι)) : App κ ι :=
  { s.put name w with log := s.log ++ (deed.map (AppEvent.worker name)).toList }

inductive AppAction (κ ι : Type) where
  | call (op : Call)
  | exec
  | raise (e : Exc)
  | signal (sig : Signal)
  | work (name : κ) (x : Work ι)
  | tick (d : ℚ)

def App.begin (s : App κ ι) : Call → App κ ι
  | .exit => { s with inside := false, requested := false }
  | _ => s

def Machine.exec (cfg : Config κ) (m : Machine κ ι) (i : Instr κ) (rest : List (Instr κ)) :
    Machine κ ι :=
  match refusal cfg m.app i with
  | some e => m.unwind cfg m.app e
  | none => { m with app := effect cfg m.app i, code := next cfg m.app rest i }

def possible (cfg : Config κ) (m : Machine κ ι) : AppAction κ ι → Option (Machine κ ι)
  | .call op =>
    if m.code.isEmpty then some { app := m.app.begin op, code := callCode cfg op } else none
  | .exec =>
    match m.code with
    | [] => none
    | i :: rest => if ready m.app i then some (m.exec cfg i rest) else none
  | .raise e =>
    match m.code with
    | [] => none
    | i :: _ => some (m.unwind cfg (halfWay m.app i) e)
  | .signal sig =>
    if m.app.handlers sig = .handleSignal then
      some { m with code := handleSignalCode cfg ++ m.code }
    else none
  | .work name x =>
    ((m.app.workers name).work (cfg.sinks name) x).map fun (w,deed) =>
      { m with app := m.app.work name w deed }
  | .tick d => some { m with app := { m.app with clock := m.app.clock + max 0 d } }

/-- An action that is not possible leaves everything as it is. -/
def act (cfg : Config κ) (m : Machine κ ι) (a : AppAction κ ι) : Machine κ ι :=
  (possible cfg m a).getD m

theorem kept_act {cfg : Config κ} {P : Machine κ ι → Prop} {m : Machine κ ι} (h : P m)
    (a : AppAction κ ι)
    (call : ∀ op, a = .call op → m.code = [] →
      P { app := m.app.begin op, code := callCode cfg op })
    (exec : ∀ i rest, a = .exec → m.code = i :: rest → ready m.app i = true →
      refusal cfg m.app i = none →
      P { m with app := effect cfg m.app i, code := next cfg m.app rest i })
    (refused : ∀ i rest e, a = .exec → m.code = i :: rest → refusal cfg m.app i = some e →
      P (m.unwind cfg m.app e))
    (raised : ∀ i rest e, a = .raise e → m.code = i :: rest →
      P (m.unwind cfg (halfWay m.app i) e))
    (signal : ∀ sig, a = .signal sig → m.app.handlers sig = .handleSignal →
      P { m with code := handleSignalCode cfg ++ m.code })
    (work : ∀ name x w deed, a = .work name x →
      (m.app.workers name).work (cfg.sinks name) x = some (w,deed) →
      P { m with app := m.app.work name w deed })
    (tick : ∀ d, a = .tick d →
      P { m with app := { m.app with clock := m.app.clock + max 0 d } }) :
    P (act cfg m a) := by
  unfold act
  cases a with
  | call op =>
    simp only [possible]
    split
    · next empty => exact call op rfl (List.isEmpty_iff.mp empty)
    · exact h
  | exec =>
    cases code : m.code with
    | nil => simpa [possible, code] using h
    | cons i rest =>
      simp only [possible, code]
      split
      · next go =>
        simp only [Option.getD_some, Machine.exec]
        split
        · next e refuses => exact refused i rest e rfl code refuses
        · next free => exact exec i rest rfl code go free
      · exact h
  | raise e =>
    cases code : m.code with
    | nil => simpa [possible, code] using h
    | cons i rest =>
      simp only [possible, code]
      exact raised i rest e rfl code
  | signal sig =>
    simp only [possible]
    split
    · next installed => exact signal sig rfl installed
    · exact h
  | work name x =>
    simp only [possible]
    cases done : (m.app.workers name).work (cfg.sinks name) x with
    | none => exact h
    | some result => exact work name x result.1 result.2 rfl done
  | tick d => exact tick d rfl

inductive Works (sinks : List Sink) (w : Worker ι) : Worker ι → Option (Deed ι) → Prop where
  | stopped (idle : w.phase.Idle) (stop : w.stopEvent = true) :
      Works sinks w { w with phase := .ended } none
  | passed (idle : w.phase.Idle) (go : w.stopEvent = false) :
      Works sinks w { w with asking := .checked } (some .passedCheck)
  | listens (at_ : w.asking = .checked) :
      Works sinks w { w with asking := .listening } (some .listens)
  | advanced {x : Work ι} {event : Event ι} {phase : Phase ι}
      (next : advance sinks w.phase x = some (event,phase)) :
      Works sinks w { w with asking := .no, phase := phase } (some (.did event))
  | finished :
      Works sinks w { w with thread := .ended, phase := .ended, asking := .no } none

theorem isIdle_iff {p : Phase ι} : Phase.isIdle p = true ↔ p.Idle := by
  cases p <;> simp [Phase.isIdle, Phase.Idle]

variable {sinks : List Sink} {w w' : Worker ι} {x : Work ι} {deed : Option (Deed ι)}

theorem works_moved (h : w.moved sinks x = some (w',deed)) : Works sinks w w' deed := by
  obtain ⟨result,next,same⟩ := Option.map_eq_some_iff.mp h
  cases same
  exact Works.advanced next

theorem work_alive (h : w.work sinks x = some (w',deed)) : w.thread = .alive := by
  by_contra dead
  simp [Worker.work, dead] at h

theorem work_works (h : w.work sinks x = some (w',deed)) : Works sinks w w' deed := by
  have alive := work_alive h
  unfold Worker.work at h
  rw [if_pos alive] at h
  cases x with
  | check =>
    dsimp only at h
    split at h
    · next idle =>
      obtain ⟨idle,at_⟩ := Bool.and_eq_true_iff.mp idle
      split at h
      · next stop =>
        cases h
        exact Works.stopped (isIdle_iff.mp idle) stop
      · next go =>
        cases h
        exact Works.passed (isIdle_iff.mp idle) (by simpa using go)
    · cases h
  | listen =>
    dsimp only at h
    split at h
    · next at_ =>
      cases h
      exact Works.listens at_
    · cases h
  | listened rows =>
    dsimp only at h
    split at h
    · exact works_moved h
    · cases h
  | write batch raised =>
    dsimp only at h
    split at h
    · exact works_moved h
    · cases h
  | commit moved raised =>
    dsimp only at h
    split at h
    · exact works_moved h
    · cases h
  | finish =>
    cases h
    exact Works.finished

theorem passes_iff {sink : Sink} {raised : Option Exc} :
    passes sink raised = true ↔ Passes sink raised := by
  cases raised with
  | none => simp [passes, Passes]
  | some e => simp [passes, Passes]

theorem writes_follows {batch : Batch ι} {i : Nat} {raised : Option Exc} {event : Event ι}
    {p q : Phase ι} (awaits : p.Awaits batch i)
    (h : writes sinks batch i raised = some (event,q)) : Follows sinks p event q := by
  obtain ⟨sink,at_,same⟩ := Option.map_eq_some_iff.mp h
  cases same
  split
  · next pass => exact Follows.passed awaits at_ (passes_iff.mp pass)
  · next fail => exact Follows.refused awaits at_ fun pass => fail (passes_iff.mpr pass)

theorem advance_follows {event : Event ι} {p q : Phase ι}
    (h : advance sinks p x = some (event,q)) : Follows sinks p event q := by
  unfold advance at h
  split at h
  · cases h
    exact Follows.listened trivial
  · cases h
    exact Follows.listened trivial
  · exact writes_follows (Or.inl ⟨rfl,rfl⟩) h
  · exact writes_follows (Or.inr rfl) h
  · next batch i moved raised =>
    split at h
    · next all =>
      subst i
      cases raised with
      | none =>
        cases h
        exact Follows.committed
      | some e =>
        cases h
        exact Follows.retried
    · cases h
  · cases h

theorem follows_advance {event : Event ι} {p q : Phase ι} (h : Follows sinks p event q)
    (own : isStarted event = false ∧ isLanded event = false) :
    ∃ x, advance sinks p x = some (event,q) := by
  cases h with
  | started => cases own.1
  | landed => cases own.2
  | @listened _ rows idle =>
    refine ⟨.listened rows,?_⟩
    cases p with
    | ready => rfl
    | settled b => rfl
    | ended => exact idle.elim
    | delivering b n => exact idle.elim
  | @passed _ i b raised sink next at_ pass =>
    refine ⟨.write b raised,?_⟩
    rcases next with ⟨rfl,rfl⟩ | rfl
    · simp [advance, writes, at_, passes_iff.mpr pass]
    · simp [advance, writes, at_, passes_iff.mpr pass]
  | @refused _ i b raised sink next at_ fail =>
    refine ⟨.write b raised,?_⟩
    have refuses : passes sink raised = false := by
      rw [← Bool.not_eq_true]
      exact fun pass => fail (passes_iff.mp pass)
    rcases next with ⟨rfl,rfl⟩ | rfl
    · simp [advance, writes, at_, refuses]
    · simp [advance, writes, at_, refuses]
  | @retried b moved e => exact ⟨.commit moved (some e),by simp [advance]⟩
  | @committed b moved => exact ⟨.commit moved none,by simp [advance]⟩

theorem kept_effect {P : (κ → Worker ι) → List (AppEvent κ ι) → Prop} {cfg : Config κ}
    {s : App κ ι} (h : P s.workers s.log) (i : Instr κ)
    (entered : ∀ name, i = .enterWorker name → (s.workers name).entered = false →
      P (Function.update s.workers name
          { s.workers name with entered := true, consumerOpen := true })
        (s.log ++ [.entered name]))
    (exited : ∀ name, i = .exitWorker name → (s.workers name).entered = true →
      P (Function.update s.workers name
          { s.workers name with entered := false, consumerOpen := false })
        (s.log ++ [.exited name]))
    (started : ∀ name infinite, i = .startWorker name infinite →
      (s.workers name).thread = .absent →
      P (Function.update s.workers name ((s.workers name).started .alive))
        (s.log ++ [.reached name false] ++ [.ran name infinite]))
    (kept : ∀ name infinite, i = .startWorker name infinite →
      (s.workers name).thread ≠ .absent →
      P s.workers (s.log ++ [.reached name (s.isAlive name)]))
    (stop : ∀ name, i = .requestStop name →
      P (Function.update s.workers name { s.workers name with stopEvent := true }) s.log)
    (warned : ∀ name, i = .warnIfAlive name → s.isAlive name = true →
      P s.workers (s.log ++ [.warned name]))
    (handled : i = .handled → P s.workers (s.log ++ [.handled])) :
    P (effect cfg s i).workers (effect cfg s i).log := by
  cases i with
  | enterWorker name =>
    simp only [effect, App.enterWorker]
    split
    · exact h
    · next fresh => exact entered name rfl (by simpa using fresh)
  | exitWorker name =>
    simp only [effect, App.exitedWorker]
    split
    · next held => exact exited name rfl held
    · exact h
  | startWorker name infinite =>
    simp only [effect, App.startWorker]
    split
    · next absent =>
      have dead : s.isAlive name = false := by simp [App.isAlive, Worker.isAlive, absent]
      rw [dead]
      exact started name infinite rfl absent
    · next there => exact kept name infinite rfl there
  | requestStop name => exact stop name rfl
  | warnIfAlive name =>
    simp only [effect]
    split
    · next alive => exact warned name rfl alive
    · exact h
  | handled => exact handled rfl
  | _ => exact h

theorem kept_halfWay {P : (κ → Worker ι) → List (AppEvent κ ι) → Prop} {s : App κ ι}
    (h : P s.workers s.log) (i : Instr κ)
    (exited : ∀ name, i = .exitWorker name → (s.workers name).entered = true →
      P (Function.update s.workers name
          { s.workers name with entered := true, consumerOpen := false })
        (s.log ++ [.exited name]))
    (started : ∀ name infinite, i = .startWorker name infinite →
      (s.workers name).thread = .absent →
      P (Function.update s.workers name ((s.workers name).started .ended)) s.log) :
    P (halfWay s i).workers (halfWay s i).log := by
  cases i with
  | exitWorker name =>
    simp only [halfWay, App.exitedWorker]
    split
    · next held => exact exited name rfl held
    · exact h
  | startWorker name infinite =>
    simp only [halfWay]
    split
    · next absent => exact started name infinite rfl absent
    · exact h
  | _ => exact h

theorem kept_shared {P : (κ → Worker ι) → List (AppEvent κ ι) → Prop} {cfg : Config κ}
    {m : Machine κ ι} (h : P m.app.workers m.app.log) (a : AppAction κ ι)
    (done : ∀ i rest, a = .exec → m.code = i :: rest →
      P (effect cfg m.app i).workers (effect cfg m.app i).log)
    (halfDone : ∀ i, P (halfWay m.app i).workers (halfWay m.app i).log)
    (worked : ∀ name x w deed, (m.app.workers name).work (cfg.sinks name) x = some (w,deed) →
      P (m.app.work name w deed).workers (m.app.work name w deed).log) :
    P (act cfg m a).app.workers (act cfg m a).app.log := by
  apply kept_act (P := fun m => P m.app.workers m.app.log) h a
  · intro op _ _
    cases op <;> exact h
  · intro i rest same code _ _
    exact done i rest same code
  · intro i rest e _ _ _
    exact h
  · intro i rest e _ _
    exact halfDone i
  · intro sig _ _
    exact h
  · intro name x w deed _ does
    exact worked name x w deed does
  · intro d _
    exact h

def App.own (s : App κ ι) : App κ ι := { s with workers := fun _ => {}, log := [] }

theorem own_enterWorker (s : App κ ι) (name : κ) : (s.enterWorker name).own = s.own := by
  unfold App.enterWorker
  split <;> rfl

theorem own_exitedWorker (s : App κ ι) (name : κ) (entered : Bool) :
    (s.exitedWorker name entered).own = s.own := by
  unfold App.exitedWorker
  split <;> rfl

theorem own_startWorker (s : App κ ι) (name : κ) (infinite : Bool) :
    (s.startWorker name infinite).own = s.own := by
  unfold App.startWorker
  split <;> rfl

theorem own_warnIfAlive (cfg : Config κ) (s : App κ ι) (name : κ) :
    (effect cfg s (.warnIfAlive name)).own = s.own := by
  simp only [effect]
  split <;> rfl

theorem own_halfWay (s : App κ ι) (i : Instr κ) : (halfWay s i).own = s.own := by
  cases i with
  | exitWorker name => exact own_exitedWorker s name true
  | startWorker name infinite =>
    simp only [halfWay]
    split <;> rfl
  | _ => rfl

end

section
variable {κ ι : Type}

inductive Waits : Instr κ → Prop where
  | acquire : Waits .acquire
  | release : Waits .release
  | unlessDone : Waits .unlessDone
  | pause : Waits .pause
  | waitForWorkers : Waits .waitForWorkers

theorem next_adds (cfg : Config κ) (s : App κ ι) (rest : List (Instr κ)) (i : Instr κ) :
    ∃ more, next cfg s rest i = more ++ rest ∧ ∀ j ∈ more, Waits j := by
  have nothing : ∃ more, rest = more ++ rest ∧ ∀ j ∈ more, Waits j :=
    ⟨[],rfl,fun _ no => absurd no List.not_mem_nil⟩
  cases i with
  | waitForWorkers =>
    simp only [next]
    split
    · exact nothing
    · refine ⟨[.acquire,.release,.unlessDone],rfl,?_⟩
      simpa using ⟨Waits.acquire,Waits.release,Waits.unlessDone⟩
  | unlessDone =>
    simp only [next]
    split
    · exact nothing
    · refine ⟨[.pause,.waitForWorkers],rfl,?_⟩
      simpa using ⟨Waits.pause,Waits.waitForWorkers⟩
  | _ => exact nothing

end

section
variable {κ ι : Type} [DecidableEq κ]

def AppEvent.ofWorker (name : κ) : AppEvent κ ι → Option (Event ι)
  | .ran other _ => if other = name then some .started else none
  | .worker other (.did event) => if other = name then some event else none
  | _ => none

def workerTrace (name : κ) (log : List (AppEvent κ ι)) : List (Event ι) :=
  log.filterMap (AppEvent.ofWorker name)

/-- The trace of every worker is one of the delivery protocol, and its delivery stands
    where the trace ends. -/
def Following (cfg : Config κ) (workers : κ → Worker ι) (log : List (AppEvent κ ι)) : Prop :=
  ∀ name, ∃ p, Path (Follows (cfg.sinks name)) .ended (workerTrace name log) p ∧
    ((workers name).phase = .ended ∨ (workers name).phase = p)

variable {cfg : Config κ} {workers : κ → Worker ι} {log : List (AppEvent κ ι)} {name : κ}

theorem workerTrace_snoc (event : AppEvent κ ι) :
    workerTrace name (log ++ [event]) =
      workerTrace name log ++ (event.ofWorker name).toList := by
  cases own : event.ofWorker name <;> simp [workerTrace, own]

theorem following_update {w : Worker ι} (h : Following cfg workers log)
    (same : w.phase = .ended ∨ w.phase = (workers name).phase) :
    Following cfg (Function.update workers name w) log := by
  intro other
  obtain ⟨p,path,at_⟩ := h other
  refine ⟨p,path,?_⟩
  by_cases this : other = name
  · subst other
    rw [Function.update_self]
    rcases same with ended | still
    · exact Or.inl ended
    · rw [still]
      exact at_
  · rw [Function.update_of_ne this]
    exact at_

theorem following_record {event : AppEvent κ ι} (h : Following cfg workers log)
    (silent : ∀ name, event.ofWorker name = none) :
    Following cfg workers (log ++ [event]) := by
  intro other
  obtain ⟨p,path,at_⟩ := h other
  refine ⟨p,?_,at_⟩
  rw [workerTrace_snoc, silent]
  simpa using path

theorem following_step {w : Worker ι} {event : AppEvent κ ι} {done : Event ι}
    (h : Following cfg workers log) (own : event.ofWorker name = some done)
    (others : ∀ other, other ≠ name → event.ofWorker other = none)
    (step : ∀ p, (workers name).phase = .ended ∨ (workers name).phase = p →
      ∃ q, Follows (cfg.sinks name) p done q ∧ (w.phase = .ended ∨ w.phase = q)) :
    Following cfg (Function.update workers name w) (log ++ [event]) := by
  intro other
  obtain ⟨p,path,at_⟩ := h other
  rw [workerTrace_snoc]
  by_cases this : other = name
  · subst other
    obtain ⟨q,last,ends⟩ := step p at_
    rw [own, Function.update_self]
    exact ⟨q,path_snoc path last,ends⟩
  · rw [others other this, Function.update_of_ne this]
    exact ⟨p,by simpa using path,at_⟩

theorem following_work {sinks : List Sink} {w : Worker ι} {deed : Option (Deed ι)}
    (which : sinks = cfg.sinks name) (h : Following cfg workers log)
    (done : Works sinks (workers name) w deed) :
    Following cfg (Function.update workers name w)
      (log ++ (deed.map (AppEvent.worker name)).toList) := by
  subst which
  cases done with
  | stopped idle stop => simpa using following_update h (Or.inl rfl)
  | finished => simpa using following_update h (Or.inl rfl)
  | passed idle go => exact following_record (following_update h (Or.inr rfl)) fun _ => rfl
  | listens at_ => exact following_record (following_update h (Or.inr rfl)) fun _ => rfl
  | @advanced x event phase next =>
    have own : (AppEvent.worker name (.did event)).ofWorker name = some event := by
      simp [AppEvent.ofWorker]
    refine following_step h own
      (fun other this => by simp [AppEvent.ofWorker, Ne.symm this]) ?_
    intro p at_
    have follows := advance_follows next
    rcases at_ with ended | same
    · rw [ended] at next
      simp [advance] at next
    · rw [← same]
      exact ⟨phase,follows,Or.inr rfl⟩

theorem following_start {infinite : Bool} (thread : Thread) (h : Following cfg workers log) :
    Following cfg (Function.update workers name ((workers name).started thread))
      (log ++ [.ran name infinite]) := by
  have own : (AppEvent.ran (ι := ι) name infinite).ofWorker name = some .started := by
    simp [AppEvent.ofWorker]
  refine following_step h own
    (fun other this => by simp [AppEvent.ofWorker, Ne.symm this]) ?_
  intro p _
  refine ⟨.ready,Follows.started,?_⟩
  simp only [Worker.started]
  split
  · exact Or.inr rfl
  · exact Or.inl rfl

theorem following_effect {s : App κ ι} (h : Following cfg s.workers s.log) (i : Instr κ) :
    Following cfg (effect cfg s i).workers (effect cfg s i).log := by
  apply kept_effect (P := Following cfg) h
  · intro name _ _
    exact following_record (following_update h (Or.inr rfl)) fun _ => rfl
  · intro name _ _
    exact following_record (following_update h (Or.inr rfl)) fun _ => rfl
  · intro name infinite _ _
    exact following_start .alive (following_record h fun _ => rfl)
  · intro name _ _ _
    exact following_record h fun _ => rfl
  · intro name _
    exact following_update h (Or.inr rfl)
  · intro name _ _
    exact following_record h fun _ => rfl
  · intro _
    exact following_record h fun _ => rfl

theorem following_halfWay {s : App κ ι} (h : Following cfg s.workers s.log) (i : Instr κ) :
    Following cfg (halfWay s i).workers (halfWay s i).log := by
  apply kept_halfWay (P := Following cfg) h
  · intro name _ _
    exact following_record (following_update h (Or.inr rfl)) fun _ => rfl
  · intro name _ _ _
    exact following_update h (Or.inl (by simp [Worker.started]))

theorem workers_follow (cfg : Config κ) (acts : List (AppAction κ ι)) :
    ∀ m ∈ visited (act cfg) {} acts, Following cfg m.app.workers m.app.log := by
  have kept : ∀ (m : Machine κ ι) a, Following cfg m.app.workers m.app.log →
      Following cfg (act cfg m a).app.workers (act cfg m a).app.log := by
    intro m a h
    apply kept_shared h a
    · intro i rest _ _
      exact following_effect h i
    · intro i
      exact following_halfWay h i
    · intro name x w deed does
      exact following_work rfl h (work_works does)
  apply always (fun m : Machine κ ι => Following cfg m.app.workers m.app.log) kept
  intro name
  exact ⟨.ended,Path.nil _,Or.inl rfl⟩

end

theorem default_timeout_nonneg : (0 : ℚ) ≤ 30 := by decide

def Config.orders : Config String where
  names := ["orders"]
  distinct := List.nodup_singleton "orders"
  sinks _ := [⟨"stdout",true⟩]
  nonneg := default_timeout_nonneg

end CdcApp
