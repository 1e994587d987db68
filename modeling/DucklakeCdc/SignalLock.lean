import DucklakeCdc.AppHosting
import DucklakeCdc.CheckedCode

/-!
The lock of the app against its signal handler. `_handle_signal` takes `_lock` on the
main thread, on top of whatever it interrupts; the lock is not reentrant, so a signal
that comes inside one of the app's `with self._lock` regions waits for itself.
-/
namespace CdcSignalLock
open Histories CheckedCode CdcRetry CdcApp

section
variable {κ ι : Type}

/-- The main thread has to take the lock before anything else, and holds it. -/
def Deadlocked (m : Machine κ ι) : Prop :=
  m.app.locked = true ∧ ∃ before rest, m.code = before ++ .acquire :: rest ∧
    ∀ i ∈ before, i = .setStopping true

/-- Every signal that the app handles comes while its lock is free. -/
def LockFree (m : Machine κ ι) (a : AppAction κ ι) : Prop :=
  ∀ sig, a = .signal sig → m.app.handlers sig = .handleSignal → m.app.locked = false

def demand (i : Instr κ) (locked : Bool) : Prop :=
  match i with
  | .acquire | .waitForWorkers | .unlessDone | .pause => locked = false
  | .release => locked = true
  | _ => True

def after (i : Instr κ) (locked : Bool) : Bool :=
  match i with
  | .acquire => true
  | .release => false
  | _ => locked

def Paired : Bool → List (Instr κ) → Prop := Checks demand after fun locked => locked = false

variable {code rest : List (Instr κ)} {locked : Bool} {names : List κ}

theorem paired_names (instr : κ → Instr κ)
    (plain : ∀ name locked, demand (instr name) locked ∧ after (instr name) locked = locked) :
    Paired locked (names.map instr ++ rest) ↔ Paired locked rest := checks_neutral_map plain

theorem paired_requestStops :
    Paired locked (names.map .requestStop ++ rest) ↔ Paired locked rest :=
  paired_names _ fun _ _ => ⟨trivial,rfl⟩

theorem paired_joins :
    Paired locked (names.flatMap (fun name => [.join name,.warnIfAlive name]) ++ rest) ↔
      Paired locked rest := by
  apply checks_neutral_loop
  intro name i inside
  simp only [List.mem_cons, List.not_mem_nil, or_false] at inside
  rcases inside with rfl | rfl <;> exact fun _ => ⟨trivial,rfl⟩

variable (cfg : Config κ)

theorem paired_enterCode : Paired false (enterCode cfg) := by
  simp only [enterCode, lookUp, List.cons_append, List.nil_append]
  refine ⟨rfl,rfl,?_⟩
  rw [← Paired, paired_names .enterWorker fun _ _ => ⟨trivial,rfl⟩]
  exact ⟨trivial,trivial,rfl⟩

theorem paired_exitCode : Paired false (exitCode cfg) := by
  simp only [exitCode, lookUp, List.append_assoc, List.cons_append, List.nil_append]
  refine ⟨trivial,trivial,rfl,rfl,?_⟩
  rw [← Paired, paired_requestStops]
  refine ⟨trivial,?_⟩
  rw [← Paired, paired_joins, paired_names .exitWorker fun _ _ => ⟨trivial,rfl⟩]
  exact ⟨trivial,trivial,rfl⟩

theorem paired_runCode (infinite : Bool) : Paired false (runCode cfg infinite) := by
  simp only [runCode, List.cons_append, List.nil_append]
  refine ⟨trivial,rfl,trivial,?_⟩
  rw [← Paired, paired_names (.startWorker · infinite) fun _ _ => ⟨trivial,rfl⟩]
  exact ⟨rfl,trivial,rfl,trivial,rfl⟩

theorem paired_callCode (op : Call) : Paired false (callCode cfg op) := by
  cases op with
  | enter => exact paired_enterCode cfg
  | exit => exact paired_exitCode cfg
  | run infinite => exact paired_runCode cfg infinite
  | consumers => exact ⟨rfl,rfl,rfl⟩
  | stats => exact ⟨rfl,rfl,rfl⟩

theorem paired_interrupted (e : Exc) : Paired false (interruptedCode cfg e) := by
  simp only [interruptedCode, List.cons_append, List.nil_append]
  refine ⟨rfl,?_⟩
  rw [← Paired, paired_requestStops]
  exact ⟨rfl,trivial,rfl⟩

theorem paired_handleSignal (later : Paired false code) :
    Paired false (handleSignalCode cfg ++ code) := by
  simp only [handleSignalCode, lookUp, List.append_assoc, List.cons_append, List.nil_append]
  refine ⟨trivial,rfl,rfl,?_⟩
  rw [← Paired, paired_requestStops]
  exact ⟨trivial,later⟩

theorem paired_next {s : App κ ι} {i : Instr κ} (h : Paired locked (i :: rest)) :
    Paired (after i locked) (next cfg s rest i) := by
  obtain ⟨given,later⟩ := h
  cases i with
  | waitForWorkers =>
    simp only [next]
    split
    · exact later
    · obtain rfl : locked = false := given
      exact ⟨rfl,rfl,rfl,later⟩
  | unlessDone =>
    simp only [next]
    split
    · exact later
    · exact ⟨given,given,later⟩
  | _ => exact later

/-- Code that pairs its locks does not wait for itself. -/
theorem not_deadlocked {m : Machine κ ι} (h : Paired m.app.locked m.code) : ¬ Deadlocked m := by
  intro stuck
  obtain ⟨held,before,rest,code,stops⟩ := stuck
  rw [code, held, Paired, checks_neutral] at h
  · cases h.1
  · intro i member locked
    rw [stops i member]
    exact ⟨trivial,rfl⟩

end

section
variable {κ ι : Type} [DecidableEq κ] {cfg : Config κ} {m : Machine κ ι} {a : AppAction κ ι}

theorem effect_locked (s : App κ ι) (i : Instr κ) :
    (effect cfg s i).locked = after i s.locked := by
  cases i with
  | enterWorker name => exact (congrArg App.locked (own_enterWorker s name) :)
  | exitWorker name => exact (congrArg App.locked (own_exitedWorker s name false) :)
  | startWorker name infinite => exact (congrArg App.locked (own_startWorker s name infinite) :)
  | warnIfAlive name => exact (congrArg App.locked (own_warnIfAlive cfg s name) :)
  | _ => rfl

theorem paired_unwind (s : App κ ι) (e : Exc) :
    Paired (m.unwind cfg s e).app.locked (m.unwind cfg s e).code := by
  simp only [Machine.unwind]
  split
  · exact paired_interrupted cfg e
  · rfl

theorem paired_act (h : Paired m.app.locked m.code) (clean : LockFree m a) :
    Paired (act cfg m a).app.locked (act cfg m a).code := by
  apply kept_act (P := fun m => Paired m.app.locked m.code) h a
  · intro op _ idle
    have free : m.app.locked = false := by
      rw [idle] at h
      exact h
    have begun : (m.app.begin op).locked = false := by
      cases op <;> exact free
    rw [begun]
    exact paired_callCode cfg op
  · intro i rest _ code _ _
    rw [code] at h
    rw [effect_locked]
    exact paired_next cfg h
  · intro i rest e _ _ _
    exact paired_unwind m.app e
  · intro i rest e _ _
    exact paired_unwind (halfWay m.app i) e
  · intro sig same installed
    have free := clean sig same installed
    rw [free] at h ⊢
    exact paired_handleSignal cfg h
  · intro name x w deed _ _
    exact h
  · intro d _
    exact h

theorem lockFree_of_act (h : ¬ Deadlocked (act cfg m a)) : LockFree m a := by
  intro sig same installed
  subst a
  by_contra held
  apply h
  have interrupted : act cfg m (.signal sig) = { m with code := handleSignalCode cfg ++ m.code } := by
    simp [act, possible, installed]
  rw [interrupted]
  exact ⟨by simpa using held,[.setStopping true],_,rfl,by simp⟩

theorem deadlocked_stays (h : Deadlocked m) (quiet : ∀ e, a ≠ .raise e) :
    Deadlocked (act cfg m a) := by
  obtain ⟨held,before,rest,code,stops⟩ := h
  apply kept_act (P := Deadlocked) ⟨held,before,rest,code,stops⟩ a
  · intro op _ idle
    rw [code] at idle
    simp at idle
  · intro i later _ code' go _
    cases before with
    | nil =>
      rw [code] at code'
      cases code'
      simp [ready, held] at go
    | cons first before =>
      rw [code] at code'
      cases code'
      rw [stops i List.mem_cons_self]
      exact ⟨held,before,rest,rfl,fun j member => stops j (List.mem_cons_of_mem i member)⟩
  · intro i later e _ code' refuses
    exfalso
    cases before with
    | nil =>
      rw [code] at code'
      cases code'
      cases refuses
    | cons first before =>
      rw [code] at code'
      cases code'
      rw [stops i List.mem_cons_self] at refuses
      cases refuses
  · intro i later e same
    exact absurd same (quiet e)
  · intro sig _ _
    exact ⟨held,[.setStopping true],_,rfl,by simp⟩
  · intro name x w deed _ _
    exact ⟨held,before,rest,code,stops⟩
  · intro d _
    exact ⟨held,before,rest,code,stops⟩

theorem deadlocked_forever {acts : List (AppAction κ ι)} (h : Deadlocked m)
    (quiet : EveryStep (act cfg) (fun _ a => ∀ e, a ≠ .raise e) m acts) :
    ∀ t ∈ visited (act cfg) m acts, Deadlocked t :=
  safe_of_clean Deadlocked (fun _ _ h quiet => deadlocked_stays h quiet) (fun _ h => h) h quiet

/-- The handler can always complete if and only if no signal comes while the app holds
    its lock. -/
theorem handler_completes_iff (cfg : Config κ) (acts : List (AppAction κ ι)) :
    (∀ m ∈ visited (act cfg) {} acts, ¬ Deadlocked m) ↔ EveryStep (act cfg) LockFree {} acts := by
  apply safe_iff_clean fun m => Paired m.app.locked m.code
  · exact fun m a h clean => paired_act h clean
  · exact fun m h => not_deadlocked h
  · exact fun m a _ safe => lockFree_of_act safe
  · rfl

end

/-- A signal while `run` is starting the workers. -/
def signalInRun : List (AppAction String Int) :=
  [.call .enter] ++ List.replicate 5 AppAction.exec ++ [.call (.run true),.exec,.exec,.signal .sigterm]

theorem signalInRun_code : (signalInRun.foldl (act .orders) {}).code = [.setStopping true] ++
    .acquire :: [.release,.requestStop "orders",.handled,.requireWorkers,
      .startWorker "orders" true,.release,.tryWait,.waitForWorkers,.exceptInterrupt] := by
  decide +kernel

theorem handler_waits : ¬ ∀ (cfg : Config String) (acts : List (AppAction String Int)),
    ∀ m ∈ visited (act cfg) {} acts, ¬ Deadlocked m := by
  intro all
  apply all .orders signalInRun _ (foldl_visited _ (by simp [signalInRun]))
  exact ⟨by decide +kernel,[.setStopping true],_,signalInRun_code,by simp⟩

end CdcSignalLock
