import DucklakeCdc.AppHosting

/-!
The join phase of `CDCApp.__exit__` in time. Every thread ends at a time of its own; joining
one takes until it ends or the timeout is over, and nothing else takes time. The joins come
one after the other with what is left of one deadline.
-/
namespace CdcShutdownDeadline
open CdcApp

/-- A worker's thread: never started, ending at some time, or never ending. -/
inductive Life where
  | absent
  | ends (time : ℚ)
  | endless

structure TimedWorker (κ : Type) where
  name : κ
  life : Life

def Life.endsBy (life : Life) (time : ℚ) : Bool :=
  match life with
  | .absent => true
  | .ends at_ => decide (at_ ≤ time)
  | .endless => false

def Life.isAlive (life : Life) (now : ℚ) : Bool := !life.endsBy now

def Life.joined (life : Life) (timeout now : ℚ) : ℚ :=
  match life with
  | .ends at_ => min at_ (now + timeout)
  | _ => now + timeout

def Life.join (life : Life) (timeout now : ℚ) : ℚ :=
  if life.isAlive now then life.joined timeout now else now

/-- `seen` is what `is_alive` told of each worker when it was asked. -/
structure Joins (κ : Type) where
  clock : ℚ
  seen : List (κ × Bool) := []
  warned : List κ := []

section
variable {κ : Type}

def joinWorker (deadline : ℚ) (s : Joins κ) (worker : TimedWorker κ) : Joins κ :=
  let remaining := max 0 (deadline - s.clock)
  let clock := worker.life.join remaining s.clock
  let alive := worker.life.isAlive clock
  { clock := clock
    seen := s.seen ++ [(worker.name,alive)]
    warned := if alive then s.warned ++ [worker.name] else s.warned }

def joinPhase (shutdownTimeout start : ℚ) (workers : List (TimedWorker κ)) : Joins κ :=
  let deadline := start + shutdownTimeout
  workers.foldl (joinWorker deadline) { clock := start }

theorem endsBy_mono {life : Life} {now later : ℚ} (forward : now ≤ later)
    (gone : life.endsBy now = true) : life.endsBy later = true := by
  cases life with
  | absent => rfl
  | ends at_ => exact decide_eq_true ((of_decide_eq_true gone).trans forward)
  | endless => exact gone

variable {deadline : ℚ} {s : Joins κ}

theorem join_until (life : Life) {now : ℚ} (before : now ≤ deadline) :
    now ≤ life.join (max 0 (deadline - now)) now ∧
      life.join (max 0 (deadline - now)) now ≤ deadline ∧
      life.endsBy (life.join (max 0 (deadline - now)) now) = life.endsBy deadline := by
  have left : now + max 0 (deadline - now) = deadline := by
    rw [max_eq_right (sub_nonneg.mpr before)]
    exact add_sub_cancel now deadline
  unfold Life.join
  cases gone : life.endsBy now with
  | true =>
    rw [if_neg (by simp [Life.isAlive, gone])]
    exact ⟨le_refl now,before,by rw [gone, endsBy_mono before gone]⟩
  | false =>
    rw [if_pos (by simp [Life.isAlive, gone])]
    cases life with
    | absent => contradiction
    | endless =>
      have waits : Life.joined .endless (max 0 (deadline - now)) now = deadline := left
      rw [waits]
      exact ⟨before,le_refl deadline,rfl⟩
    | ends at_ =>
      have running : now < at_ := by simpa [Life.endsBy] using gone
      rw [Life.joined, left]
      refine ⟨le_min running.le before,min_le_right at_ deadline,?_⟩
      simp only [Life.endsBy, le_min_iff, le_refl, true_and]

theorem join_outlived {life : Life} {now : ℚ} (before : now ≤ deadline)
    (alive : life.isAlive (life.join (max 0 (deadline - now)) now) = true) :
    deadline ≤ life.join (max 0 (deadline - now)) now := by
  obtain ⟨_,_,told⟩ := join_until life before
  have late : life.endsBy deadline = false := by
    rw [Life.isAlive, told] at alive
    simpa using alive
  have running : life.isAlive now = true := by
    cases gone : life.endsBy now with
    | true =>
      rw [endsBy_mono before gone] at late
      contradiction
    | false => simp [Life.isAlive, gone]
  rw [Life.join, if_pos running, max_eq_right (sub_nonneg.mpr before)]
  cases life with
  | absent => contradiction
  | endless => exact (add_sub_cancel now deadline).ge
  | ends at_ =>
    have after : deadline < at_ := by simpa [Life.endsBy] using late
    rw [Life.joined, add_sub_cancel, min_eq_right after.le]

theorem joins_step (worker : TimedWorker κ) (before : s.clock ≤ deadline) :
    s.clock ≤ (joinWorker deadline s worker).clock ∧
      (joinWorker deadline s worker).clock ≤ deadline ∧
      (joinWorker deadline s worker).seen =
        s.seen ++ [(worker.name,!worker.life.endsBy deadline)] ∧
      (joinWorker deadline s worker).warned = s.warned ++
        ([worker].filter fun w => !w.life.endsBy deadline).map TimedWorker.name := by
  obtain ⟨forward,inTime,told⟩ := join_until worker.life before
  refine ⟨forward,inTime,?_,?_⟩
  · simp only [joinWorker, Life.isAlive, told]
  · simp only [joinWorker, Life.isAlive, told]
    cases gone : worker.life.endsBy deadline <;> simp [gone]

theorem joins_run (workers : List (TimedWorker κ)) (before : s.clock ≤ deadline) :
    (workers.foldl (joinWorker deadline) s).clock ≤ deadline ∧
      (workers.foldl (joinWorker deadline) s).seen =
        s.seen ++ workers.map (fun w => (w.name,!w.life.endsBy deadline)) ∧
      (workers.foldl (joinWorker deadline) s).warned = s.warned ++
        (workers.filter fun w => !w.life.endsBy deadline).map TimedWorker.name := by
  induction workers generalizing s with
  | nil => simp [before]
  | cons worker workers ih =>
    obtain ⟨_,inTime,seen,warned⟩ := joins_step worker before
    obtain ⟨ends,seen',warned'⟩ := ih inTime
    refine ⟨ends,?_,?_⟩
    · rw [List.foldl_cons, seen', seen, List.append_assoc]
      rfl
    · rw [List.foldl_cons, warned', warned, List.append_assoc, ← List.map_append,
        ← List.filter_append]
      rfl

/-- Any number of workers and any ends of their threads: the phase is gone by the deadline,
    every worker whose thread ends by then is seen finished, wherever it stands among slower
    ones, and the others are the ones warned about. -/
theorem joins_share_deadline (workers : List (TimedWorker κ)) (shutdownTimeout start : ℚ)
    (nonneg : 0 ≤ shutdownTimeout) :
    (joinPhase shutdownTimeout start workers).clock ≤ start + shutdownTimeout ∧
    (∀ before worker after, workers = before ++ worker :: after →
      worker.life.endsBy (start + shutdownTimeout) = true →
        worker.life.isAlive (joinPhase shutdownTimeout start (before ++ [worker])).clock = false ∧
        (joinPhase shutdownTimeout start workers).seen[before.length]? = some (worker.name,false)) ∧
    (joinPhase shutdownTimeout start workers).warned =
      (workers.filter fun w => !w.life.endsBy (start + shutdownTimeout)).map TimedWorker.name := by
  have begins : ({ clock := start } : Joins κ).clock ≤ start + shutdownTimeout :=
    le_add_of_nonneg_right nonneg
  obtain ⟨ends,seen,warned⟩ := joins_run workers begins
  refine ⟨ends,?_,warned⟩
  rintro before worker after rfl gone
  constructor
  · obtain ⟨inTime,_⟩ := joins_run before begins
    obtain ⟨_,_,told⟩ := join_until worker.life inTime
    rw [joinPhase, List.foldl_append, Life.isAlive]
    rw [List.foldl_cons, List.foldl_nil]
    change (!worker.life.endsBy (worker.life.join _ _)) = false
    rw [told, gone]
    rfl
  · rw [joinPhase, seen, List.nil_append, List.map_append, List.map_cons, gone]
    rw [List.getElem?_append_right (by rw [List.length_map])]
    simp

end

def crew : List (TimedWorker String) := [⟨"orders",.endless⟩,⟨"users",.ends 12⟩,⟨"events",.absent⟩]

theorem joins_share_deadline_crew :
    (joinPhase 5 10 crew).clock ≤ 10 + 5 ∧
    (∀ before worker after, crew = before ++ worker :: after →
      worker.life.endsBy (10 + 5) = true →
        worker.life.isAlive (joinPhase 5 10 (before ++ [worker])).clock = false ∧
        (joinPhase 5 10 crew).seen[before.length]? = some (worker.name,false)) ∧
    (joinPhase 5 10 crew).warned =
      (crew.filter fun w => !w.life.endsBy (10 + 5)).map TimedWorker.name :=
  joins_share_deadline crew 5 10 (by decide)

section
variable {κ : Type}

def joinCode (names : List κ) : List (Instr κ) :=
  names.flatMap fun name => [.join name,.warnIfAlive name]

def timed (cfg : Config κ) (lives : κ → Life) : List (TimedWorker κ) :=
  cfg.names.map fun name => ⟨name,lives name⟩

theorem exitCode_joins (cfg : Config κ) : ∃ front back,
    exitCode cfg = front ++ .setDeadline :: (joinCode cfg.names ++ back) := by
  refine ⟨[.setOpened false,.setStopping true] ++ lookUp ++ cfg.names.map .requestStop,
    cfg.names.map .exitWorker ++ [.restoreSignalHandlers,.setStopping false],?_⟩
  simp [exitCode, joinCode, List.append_assoc]

end
section
variable {κ ι : Type} [DecidableEq κ] (cfg : Config κ) {lives : κ → Life} {m : Machine κ ι}

/-- The app's machine and the time say the same of these threads. -/
def Agrees (lives : κ → Life) (names : List κ) (m : Machine κ ι) : Prop :=
  ∀ name ∈ names, m.app.isAlive name = (lives name).isAlive m.app.clock

structure Untouched (m m' : Machine κ ι) : Prop where
  code : m'.code = m.code
  log : m'.app.log = m.app.log
  deadline : m'.app.deadline = m.app.deadline

def run (cfg : Config κ) (m : Machine κ ι) (actions : List (AppAction κ ι)) : Machine κ ι :=
  actions.foldl (act cfg) m

theorem act_finish (m : Machine κ ι) (name : κ) :
    Untouched m (act cfg m (.work name .finish)) ∧
      (act cfg m (.work name .finish)).app.clock = m.app.clock ∧
      ∀ other, (act cfg m (.work name .finish)).app.isAlive other =
        (m.app.isAlive other && !decide (other = name)) := by
  by_cases alive : (m.app.workers name).thread = .alive
  · let gone : Worker ι :=
      { m.app.workers name with thread := .ended, phase := .ended, asking := .no }
    have ended : act cfg m (.work name .finish) = { m with app := m.app.work name gone none } := by
      simp [act, possible, Worker.work, alive, gone]
    rw [ended]
    refine ⟨⟨rfl,List.append_nil _,rfl⟩,rfl,?_⟩
    intro other
    by_cases same : other = name
    · subst other
      simp [App.isAlive, App.work, App.put, Worker.isAlive, gone]
    · simp [App.isAlive, App.work, App.put, Worker.isAlive, same]
  · have still : act cfg m (.work name .finish) = m := by
      simp [act, possible, Worker.work, alive]
    rw [still]
    refine ⟨⟨rfl,rfl,rfl⟩,rfl,?_⟩
    intro other
    by_cases same : other = name
    · subst other
      simp [App.isAlive, Worker.isAlive, alive]
    · simp [same]

theorem run_finish (m : Machine κ ι) (ended : List κ) :
    Untouched m (run cfg m (ended.map fun name => .work name .finish)) ∧
      (run cfg m (ended.map fun name => .work name .finish)).app.clock = m.app.clock ∧
      ∀ other, (run cfg m (ended.map fun name => .work name .finish)).app.isAlive other =
        (m.app.isAlive other && !decide (other ∈ ended)) := by
  induction ended generalizing m with
  | nil => exact ⟨⟨rfl,rfl,rfl⟩,rfl,by simp [run]⟩
  | cons name ended ih =>
    obtain ⟨one,clock,alive⟩ := act_finish cfg m name
    obtain ⟨rest,clock',alive'⟩ := ih (act cfg m (.work name .finish))
    refine ⟨⟨rest.code.trans one.code,rest.log.trans one.log,rest.deadline.trans one.deadline⟩,
      clock'.trans clock,?_⟩
    intro other
    refine (alive' other).trans ?_
    rw [alive other]
    by_cases same : other = name <;> simp [same]

theorem run_until {names : List κ} {time : ℚ} (agrees : Agrees lives names m)
    (forward : m.app.clock ≤ time) :
    ∃ actions, Untouched m (run cfg m actions) ∧ (run cfg m actions).app.clock = time ∧
      Agrees lives names (run cfg m actions) := by
  let ended := names.filter fun name => (lives name).endsBy time
  let later := act cfg m (.tick (time - m.app.clock))
  have now : later.app.clock = time := by
    change m.app.clock + max 0 (time - m.app.clock) = time
    rw [max_eq_right (sub_nonneg.mpr forward)]
    exact add_sub_cancel _ _
  obtain ⟨untouched,clock,alive⟩ := run_finish cfg later ended
  refine ⟨.tick (time - m.app.clock) :: ended.map fun name => .work name .finish,
    ⟨untouched.code,untouched.log,untouched.deadline⟩,clock.trans now,?_⟩
  intro name member
  have at_ := clock.trans now
  change (run cfg later _).app.clock = time at at_
  change (run cfg later _).app.isAlive name = _
  rw [alive name]
  change (m.app.isAlive name && _) = (lives name).isAlive (run cfg later _).app.clock
  rw [at_, agrees name member]
  have inside : decide (name ∈ ended) = (lives name).endsBy time := by
    simp [ended, List.mem_filter, member]
  rw [inside]
  unfold Life.isAlive
  cases before : (lives name).endsBy m.app.clock with
  | true => rw [endsBy_mono forward before]; rfl
  | false => rfl

theorem act_exec {i : Instr κ} {rest : List (Instr κ)} (code : m.code = i :: rest)
    (go : ready m.app i = true) (free : refusal cfg m.app i = none) :
    act cfg m .exec = { m with app := effect cfg m.app i, code := next cfg m.app rest i } := by
  simp [act, possible, code, go, Machine.exec, free]

/-- The app's machine can go through its joins in this time, and warns about these workers. -/
theorem machine_joins {names : List κ} (todo : List κ) (within : ∀ name ∈ todo, name ∈ names)
    {rest : List (Instr κ)} (code : m.code = joinCode todo ++ rest)
    (agrees : Agrees lives names m) (before : m.app.clock ≤ m.app.deadline) (s : Joins κ)
    (clock : s.clock = m.app.clock) :
    ∃ actions, (run cfg m actions).code = rest ∧
      (run cfg m actions).app.clock = ((todo.map fun name => ⟨name,lives name⟩).foldl
        (joinWorker m.app.deadline) s).clock ∧
      (run cfg m actions).app.log = m.app.log ++
        (todo.filter fun name => !(lives name).endsBy m.app.deadline).map AppEvent.warned := by
  induction todo generalizing m s with
  | nil => exact ⟨[],code,clock.symm,by simp [run]⟩
  | cons name todo ih =>
    obtain ⟨forward,inTime,told⟩ := join_until (lives name) before
    obtain ⟨wait,untouched,at_,agrees'⟩ := run_until cfg agrees forward
    have code' := untouched.code.trans code
    have alive := agrees' name (within name List.mem_cons_self)
    rw [at_] at alive
    have go : ready (run cfg m wait).app (.join name) = true := by
      rw [ready, alive, at_, untouched.deadline]
      cases outlives : (lives name).isAlive _ with
      | false => rfl
      | true => simpa using join_outlived before outlives
    have joined := act_exec cfg code' go rfl
    have left : (act cfg (run cfg m wait) .exec).code =
        .warnIfAlive name :: (joinCode todo ++ rest) := by
      rw [joined]
      rfl
    have checked := act_exec cfg left rfl rfl
    rw [joined] at checked
    let warns : App κ ι := if (run cfg m wait).app.isAlive name then
      (run cfg m wait).app.record (.warned name) else (run cfg m wait).app
    let next : Machine κ ι := { run cfg m wait with app := warns, code := joinCode todo ++ rest }
    have same : warns.clock = (run cfg m wait).app.clock ∧
        warns.deadline = (run cfg m wait).app.deadline ∧
        warns.workers = (run cfg m wait).app.workers := by
      dsimp only [warns]
      split <;> exact ⟨rfl,rfl,rfl⟩
    have logged : warns.log = m.app.log ++
        ([name].filter fun name => !(lives name).endsBy m.app.deadline).map AppEvent.warned := by
      have late : (run cfg m wait).app.isAlive name = !(lives name).endsBy m.app.deadline := by
        rw [alive, Life.isAlive, told]
      dsimp only [warns]
      rw [late]
      cases gone : (lives name).endsBy m.app.deadline with
      | true => simp [gone, untouched.log]
      | false => simp [gone, untouched.log, App.record]
    have still : Agrees lives names next := by
      intro other member
      change (warns.workers other).isAlive = (lives other).isAlive warns.clock
      rw [same.1, same.2.2]
      exact agrees' other member
    have deadline_ : next.app.deadline = m.app.deadline := same.2.1.trans untouched.deadline
    have clock_ : next.app.clock = (lives name).join (max 0 (m.app.deadline - m.app.clock))
        m.app.clock := same.1.trans at_
    obtain ⟨actions,ends,time,log⟩ := ih (fun other member => within other (List.mem_cons_of_mem _ member))
      (show next.code = joinCode todo ++ rest from rfl) still (by rw [clock_, deadline_]; exact inTime)
      (joinWorker m.app.deadline s ⟨name,lives name⟩)
      (by rw [clock_, ← clock]; rfl)
    have all : run cfg m (wait ++ .exec :: .exec :: actions) = run cfg next actions := by
      have split : run cfg m (wait ++ .exec :: .exec :: actions) =
          run cfg (act cfg (act cfg (run cfg m wait) .exec) .exec) actions := List.foldl_append
      rw [split, joined, checked]
      rfl
    refine ⟨wait ++ .exec :: .exec :: actions,?_,?_,?_⟩
    · rw [all]
      exact ends
    · rw [all, time, deadline_]
      rfl
    · rw [all, log, deadline_]
      change warns.log ++ _ = _
      rw [logged, List.append_assoc, ← List.map_append, ← List.filter_append]
      rfl

theorem machine_join_phase {rest : List (Instr κ)}
    (code : m.code = .setDeadline :: (joinCode cfg.names ++ rest))
    (agrees : Agrees lives cfg.names m) :
    ∃ actions, (run cfg m actions).code = rest ∧
      (run cfg m actions).app.clock =
        (joinPhase cfg.shutdownTimeout m.app.clock (timed cfg lives)).clock ∧
      (run cfg m actions).app.log = m.app.log ++
        (joinPhase cfg.shutdownTimeout m.app.clock (timed cfg lives)).warned.map AppEvent.warned := by
  have begun := act_exec cfg code rfl rfl
  have before : m.app.clock ≤ m.app.clock + cfg.shutdownTimeout := le_add_of_nonneg_right cfg.nonneg
  have left : (act cfg m .exec).code = joinCode cfg.names ++ rest := by
    rw [begun]
    rfl
  have agrees' : Agrees lives cfg.names (act cfg m .exec) := by
    rw [begun]
    exact agrees
  obtain ⟨actions,ends,time,log⟩ := machine_joins cfg cfg.names (fun _ member => member) left
    agrees' (by rw [begun]; exact before) { clock := m.app.clock } (by rw [begun]; rfl)
  obtain ⟨_,_,warned⟩ := joins_run (s := { clock := m.app.clock }) (timed cfg lives) before
  have deadline : (act cfg m .exec).app.deadline = m.app.clock + cfg.shutdownTimeout := by
    rw [begun]
    rfl
  have unlogged : (act cfg m .exec).app.log = m.app.log := by
    rw [begun]
    rfl
  rw [deadline] at time log
  rw [unlogged] at log
  refine ⟨.exec :: actions,ends,time,?_⟩
  rw [joinPhase, warned, List.nil_append, timed, List.filter_map, List.map_map, List.map_map]
  exact log

end
end CdcShutdownDeadline
