import DucklakeCdc.AppHosting
import Mathlib.Data.List.Nodup

/-!
How often `CDCApp.run` gets a consumer to run. Each call comes to every worker once, and
the worker begins one execution of `consumer.run` if it does not have a thread yet. A
thread that has ended is never replaced, so a consumer runs once in the life of its app.
-/
namespace CdcStarts
open Histories CdcRetry CdcLoop DeliveryProtocol CdcApp

section
variable {κ ι : Type} [DecidableEq κ]

def isRan (name : κ) : AppEvent κ ι → Bool
  | .ran other _ => other == name
  | _ => false

def isDue (name : κ) : AppEvent κ ι → Bool
  | .reached other alive => other == name && !alive
  | _ => false

def executions (name : κ) (log : List (AppEvent κ ι)) : Nat := log.countP (isRan name)

/-- How often a call of `run` came to the worker while it was not running. -/
def due (name : κ) (log : List (AppEvent κ ι)) : Nat := log.countP (isDue name)

/-- `run` comes to no worker whose execution has ended. -/
def FindsNoneEnded (m : Machine κ ι) (a : AppAction κ ι) : Prop :=
  a = .exec → ∀ name infinite rest, m.code = .startWorker name infinite :: rest →
    (m.app.workers name).thread ≠ .ended

/-- Every call of `run` has begun one execution for each worker it came to that was not
    running, and none for the others. -/
def RunsAll (log : List (AppEvent κ ι)) : Prop := ∀ name, executions name log = due name log

theorem run_reaches_once (cfg : Config κ) (infinite : Bool) {name : κ} (member : name ∈ cfg.names) :
    (runCode cfg infinite).count (.startWorker name infinite) = 1 := by
  have once : (cfg.names.map fun name => Instr.startWorker name infinite).count
      (.startWorker name infinite) = 1 := by
    apply List.count_eq_one_of_mem
    · exact cfg.distinct.map fun x y same => (Instr.startWorker.inj same).1
    · exact List.mem_map.mpr ⟨name,member,rfl⟩
  simp [runCode, once]

variable {cfg : Config κ} {workers : κ → Worker ι} {log : List (AppEvent κ ι)} {name : κ}
  {w : Worker ι} {event : AppEvent κ ι} {s : App κ ι} {i : Instr κ} {m : Machine κ ι}
  {a : AppAction κ ι}

theorem executions_snoc :
    executions name (log ++ [event]) = executions name log + if isRan name event then 1 else 0 := by
  simp [executions, List.countP_append, List.countP_singleton]

theorem due_snoc : due name (log ++ [event]) = due name log + if isDue name event then 1 else 0 := by
  simp [due, List.countP_append, List.countP_singleton]

theorem runsAll_record (h : RunsAll log) (same : ∀ name, isRan name event = isDue name event) :
    RunsAll (log ++ [event]) := by
  intro name
  rw [executions_snoc, due_snoc, h name, same name]

theorem runsAll_effect (h : RunsAll s.log)
    (clean : ∀ name infinite, i = .startWorker name infinite → (s.workers name).thread ≠ .ended) :
    RunsAll (effect cfg s i).log := by
  apply kept_effect (P := fun _ log => RunsAll log) h
  · intro name _ _
    exact runsAll_record h fun _ => rfl
  · intro name _ _
    exact runsAll_record h fun _ => rfl
  · intro name infinite _ _ other
    rw [executions_snoc, executions_snoc, due_snoc, due_snoc, h other]
    simp [isRan, isDue]
  · intro name infinite same there
    have alive : s.isAlive name = true := by
      have running := clean name infinite same
      cases thread : (s.workers name).thread with
      | absent => exact absurd thread there
      | alive => simp [App.isAlive, Worker.isAlive, thread]
      | ended => exact absurd thread running
    rw [alive]
    exact runsAll_record h fun other => by simp [isRan, isDue]
  · intro name _
    exact h
  · intro name _ _
    exact runsAll_record h fun _ => rfl
  · intro _
    exact runsAll_record h fun _ => rfl

theorem runsAll_act (h : RunsAll m.app.log) (clean : FindsNoneEnded m a) :
    RunsAll (act cfg m a).app.log := by
  apply kept_shared (P := fun _ log => RunsAll log) h a
  · intro i rest same code
    apply runsAll_effect h
    intro name infinite this
    subst i
    exact clean same name infinite rest code
  · intro i
    apply kept_halfWay (P := fun _ log => RunsAll log) h
    · intro name _ _
      exact runsAll_record h fun _ => rfl
    · intro name infinite _ _
      exact h
  · intro name x w deed _
    cases deed with
    | none => simpa [App.work] using h
    | some deed => exact runsAll_record h fun _ => rfl

theorem findsNoneEnded_of_act (before : RunsAll m.app.log)
    (safe : RunsAll (act cfg m a).app.log) : FindsNoneEnded m a := by
  intro same name infinite rest code ended
  subst a
  have missed : (act cfg m .exec).app.log = m.app.log ++ [.reached name false] := by
    simp [act, possible, code, ready, Machine.exec, refusal, effect, App.startWorker, ended,
      App.record, App.isAlive, Worker.isAlive]
  have now := safe name
  rw [missed, executions_snoc, due_snoc, before name] at now
  simp [isRan, isDue] at now

/-- Every call of `run` begins the executions it has to if and only if none of them comes
    to a worker whose execution has ended. -/
theorem runs_all_iff (cfg : Config κ) (acts : List (AppAction κ ι)) :
    (∀ m ∈ visited (act cfg) {} acts, RunsAll m.app.log) ↔
      EveryStep (act cfg) FindsNoneEnded {} acts := by
  apply safe_iff_clean fun m : Machine κ ι => RunsAll m.app.log
  · exact fun m a h clean => runsAll_act h clean
  · exact fun m h => h
  · exact fun m a before safe => findsNoneEnded_of_act before safe
  · intro name
    rfl

def RanOnce (workers : κ → Worker ι) (log : List (AppEvent κ ι)) : Prop :=
  ∀ name, executions name log ≤ 1 ∧
    ((workers name).thread = .absent → executions name log = 0)

theorem ranOnce_record (h : RanOnce workers log) (silent : ∀ name, isRan name event = false) :
    RanOnce workers (log ++ [event]) := by
  intro name
  rw [executions_snoc, silent name]
  exact h name

theorem ranOnce_update (h : RanOnce workers log)
    (thread : w.thread = .absent → (workers name).thread = .absent) :
    RanOnce (Function.update workers name w) log := by
  intro other
  obtain ⟨once,none_yet⟩ := h other
  refine ⟨once,fun absent => ?_⟩
  by_cases this : other = name
  · subst other
    rw [Function.update_self] at absent
    exact none_yet (thread absent)
  · rw [Function.update_of_ne this] at absent
    exact none_yet absent

theorem ranOnce_started {infinite : Bool} (h : RanOnce workers log)
    (absent : (workers name).thread = .absent) :
    RanOnce (Function.update workers name ((workers name).started .alive))
      (log ++ [.ran name infinite]) := by
  intro other
  rw [executions_snoc]
  by_cases this : other = name
  · subst other
    rw [(h name).2 absent, Function.update_self]
    simp [isRan, Worker.started]
  · rw [Function.update_of_ne this]
    simpa [isRan, Ne.symm this] using h other

theorem ranOnce_effect (h : RanOnce s.workers s.log) :
    RanOnce (effect cfg s i).workers (effect cfg s i).log := by
  apply kept_effect (P := RanOnce) h
  · intro name _ _
    exact ranOnce_record (ranOnce_update h id) fun _ => rfl
  · intro name _ _
    exact ranOnce_record (ranOnce_update h id) fun _ => rfl
  · intro name infinite _ absent
    exact ranOnce_started (ranOnce_record h fun _ => rfl) absent
  · intro name infinite _ _
    exact ranOnce_record h fun _ => rfl
  · intro name _
    exact ranOnce_update h id
  · intro name _ _
    exact ranOnce_record h fun _ => rfl
  · intro _
    exact ranOnce_record h fun _ => rfl

/-- A consumer runs at most once in the life of its app, over all blocks and calls. -/
theorem consumer_runs_at_most_once (cfg : Config κ) (acts : List (AppAction κ ι)) :
    ∀ m ∈ visited (act cfg) {} acts, ∀ name, executions name m.app.log ≤ 1 := by
  have kept : ∀ (m : Machine κ ι) a, RanOnce m.app.workers m.app.log →
      RanOnce (act cfg m a).app.workers (act cfg m a).app.log := by
    intro m a h
    apply kept_shared h a
    · intro i rest _ _
      exact ranOnce_effect h
    · intro i
      apply kept_halfWay (P := RanOnce) h
      · intro name _ _
        exact ranOnce_record (ranOnce_update h id) fun _ => rfl
      · intro name infinite _ _
        exact ranOnce_update h fun no => by cases no
    · intro name x w deed does
      have alive : w.thread = .absent → (m.app.workers name).thread = .absent := by
        cases work_works does <;> simp [work_alive does]
      have moved : RanOnce (Function.update m.app.workers name w) m.app.log :=
        ranOnce_update h alive
      cases deed with
      | none => simpa [App.work, App.put] using moved
      | some deed => exact ranOnce_record moved fun _ => rfl
  intro m member name
  have fresh : RanOnce (ι := ι) (fun _ : κ => {}) [] := fun _ => ⟨by simp [executions],fun _ => rfl⟩
  have once := always (fun m : Machine κ ι => RanOnce m.app.workers m.app.log) kept fresh m member
  exact (once name).1

end

def runTwice : List (AppAction String Int) :=
  [.call .enter] ++ List.replicate 5 AppAction.exec ++
  [.call (.run false)] ++ List.replicate 5 AppAction.exec ++
  [.work "orders" .check,.work "orders" .listen,.work "orders" (.listened []),
    .work "orders" .finish] ++ List.replicate 6 AppAction.exec ++
  [.call (.run false)] ++ List.replicate 4 AppAction.exec

theorem second_run_starts_nothing : ¬ ∀ (cfg : Config String) (acts : List (AppAction String Int)),
    ∀ m ∈ visited (act cfg) {} acts, RunsAll m.app.log := by
  intro all
  have right := all .orders runTwice _ (foldl_visited _ (by simp [runTwice])) "orders"
  have wrong : executions "orders" (runTwice.foldl (act .orders) {}).app.log = 1 ∧
      due "orders" (runTwice.foldl (act .orders) {}).app.log = 2 := by
    decide +kernel
  rw [wrong.1, wrong.2] at right
  cases right

end CdcStarts
