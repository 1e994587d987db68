import DucklakeCdc.AppHosting
import DucklakeCdc.CheckedCode

/-!
Deliveries against the end of the `with` block. `CDCApp.__exit__` waits for a worker no
longer than `shutdown_timeout` and then closes its consumer all the same, so a slow
worker can go on to write and to commit. It never does so silently: the exit has
logged that this worker did not stop before it closed the consumer.
-/
namespace CdcShutdown
open Histories CheckedCode CdcBatch CdcRetry CdcLoop DeliveryProtocol CdcApp

section
variable {κ ι : Type}

def Delivers : Deed ι → Prop
  | .did (.wrote _ _ _) => True
  | .did (.commitCalled _ _ _) => True
  | _ => False

/-- The exit called the consumer's `__exit__`, and it was not entered again. -/
def Closed (name : κ) : List (AppEvent κ ι) → Prop :=
  Since (fun _ event => event = .exited name) (fun event => event = .entered name)

/-- Some exit logged that the worker did not stop, since the consumer was entered. -/
def Warned (name : κ) : List (AppEvent κ ι) → Prop :=
  Since (fun _ event => event = .warned name) (fun event => event = .entered name)

def ClosedSilently (name : κ) : List (AppEvent κ ι) → Prop :=
  Since (fun before event => event = .exited name ∧ ¬ Warned name before)
    (fun event => event = .entered name)

/-- No worker delivers while `closed` holds of its consumer. -/
def NeverDelivers (closed : κ → List (AppEvent κ ι) → Prop) : List (AppEvent κ ι) → Prop :=
  Throughout fun before event =>
    ∀ name deed, event = .worker name deed → Delivers deed → ¬ closed name before

def Running (w : Worker ι) : Prop := w.thread = .alive ∧ w.phase ≠ .ended

/-- The consumers that may be closed: nothing more will come from their workers, or the
    log says that something may. -/
def mayClose (workers : κ → Worker ι) (log : List (AppEvent κ ι)) : Set κ :=
  {name | Running (workers name) → Warned name log}

def demand (i : Instr κ) (safe : Set κ) : Prop :=
  match i with
  | .exitWorker name => name ∈ safe
  | _ => True

def after (i : Instr κ) (safe : Set κ) : Set κ :=
  match i with
  | .warnIfAlive name => insert name safe
  | .enterWorker name => safe \ {name}
  | .startWorker name _ => safe \ {name}
  | _ => safe

def Careful : Set κ → List (Instr κ) → Prop := Checks demand after fun _ => True

theorem monotone_careful : Monotone (A := Set κ) (demand (κ := κ)) after (fun _ => True) (· ⊆ ·) where
  demand i a b more h := by
    cases i with
    | exitWorker name => exact more h
    | _ => trivial
  after i a b more := by
    cases i with
    | warnIfAlive name => exact Set.insert_subset_insert more
    | enterWorker name => exact Set.sdiff_subset_sdiff_left more
    | startWorker name infinite => exact Set.sdiff_subset_sdiff_left more
    | _ => exact more
  last _ _ _ h := h

variable {code rest : List (Instr κ)} {safe : Set κ}

theorem careful_of_no_exit (none_closed : ∀ name, .exitWorker name ∉ code) : Careful safe code := by
  apply checks_undemanding
  · intro i member more
    cases i with
    | exitWorker name => exact absurd member (none_closed name)
    | _ => trivial
  · exact fun _ => trivial

def Plain (i : Instr κ) : Prop := ∀ safe : Set κ, demand i safe ∧ after i safe = safe

theorem careful_plain (plain : ∀ i ∈ code, Plain i) :
    Careful safe (code ++ rest) ↔ Careful safe rest :=
  checks_neutral plain

theorem careful_exits {names : List κ} (all : ∀ name ∈ names, name ∈ safe)
    (later : Careful safe rest) : Careful safe (names.map .exitWorker ++ rest) := by
  induction names with
  | nil => exact later
  | cons first names ih =>
    refine ⟨all first List.mem_cons_self,?_⟩
    exact ih fun name member => all name (List.mem_cons_of_mem first member)

theorem careful_joins {names : List κ} (later : ∀ more : Set κ, safe ⊆ more →
    (∀ name ∈ names, name ∈ more) → Careful more rest) :
    Careful safe (names.flatMap (fun name => [.join name,.warnIfAlive name]) ++ rest) := by
  apply checks_gathered
  · intro name more code h
    exact ⟨trivial,trivial,h⟩
  · exact later

variable (cfg : Config κ)

theorem careful_exitCode : Careful safe (exitCode cfg) := by
  have start : ∀ i ∈ [.setOpened false,.setStopping true] ++ lookUp ++
      cfg.names.map Instr.requestStop ++ [.setDeadline], Plain i := by
    intro i member
    simp only [lookUp, List.mem_append, List.mem_cons, List.not_mem_nil, or_false,
      List.mem_map] at member
    rcases member with (((rfl | rfl) | (rfl | rfl)) | ⟨name,_,rfl⟩) | rfl <;>
      exact fun _ => ⟨trivial,rfl⟩
  unfold exitCode
  rw [List.append_assoc, List.append_assoc, careful_plain start]
  apply careful_joins
  intro more _ all
  exact careful_exits all (careful_of_no_exit (by simp))

theorem careful_callCode (op : Call) : Careful safe (callCode cfg op) := by
  cases op with
  | exit => exact careful_exitCode cfg
  | enter => exact careful_of_no_exit (by simp [callCode, enterCode, lookUp])
  | run infinite => exact careful_of_no_exit (by simp [callCode, runCode])
  | consumers => exact careful_of_no_exit (by simp [callCode, lookUp])
  | stats => exact careful_of_no_exit (by simp [callCode, lookUp])

theorem careful_handleSignal (later : Careful safe code) :
    Careful safe (handleSignalCode cfg ++ code) := by
  refine (careful_plain ?_).mpr later
  intro i member
  simp only [handleSignalCode, lookUp, List.mem_append, List.mem_cons, List.not_mem_nil, or_false,
    List.mem_map] at member
  rcases member with ((rfl | (rfl | rfl)) | ⟨name,_,rfl⟩) | rfl <;> exact fun _ => ⟨trivial,rfl⟩

theorem careful_interrupted (e : Exc) : Careful safe (interruptedCode cfg e) :=
  careful_of_no_exit (by simp [interruptedCode])

theorem careful_next {s : App κ ι} {i : Instr κ} (h : Careful safe rest) :
    Careful safe (next cfg s rest i) := by
  obtain ⟨more,same,waits⟩ := next_adds cfg s rest i
  rw [same, careful_plain]
  · exact h
  · intro j member
    cases waits j member <;> exact fun _ => ⟨trivial,rfl⟩

structure Quiet (workers : κ → Worker ι) (log : List (AppEvent κ ι)) : Prop where
  shut : ∀ name, Closed name log → (workers name).consumerOpen = false
  still : ∀ name, ClosedSilently name log → ¬ Running (workers name)
  never : NeverDelivers ClosedSilently log

variable {workers : κ → Worker ι} {log : List (AppEvent κ ι)} {name : κ} {event : AppEvent κ ι}
  {w : Worker ι}

theorem closed_of_silently (h : ClosedSilently name log) : Closed name log := by
  obtain ⟨before,event,later,same,begun,open_⟩ := h
  exact ⟨before,event,later,same,begun.1,open_⟩

theorem quiet_record (h : Quiet workers log) (closes : ∀ name, event ≠ .exited name)
    (delivers : ∀ name deed, event = .worker name deed → Delivers deed →
      ¬ ClosedSilently name log) : Quiet workers (log ++ [event]) := by
  refine ⟨?_,?_,throughout_snoc h.never delivers⟩
  · intro name closed
    rcases since_snoc.mp closed with now | ⟨before,_⟩
    · exact absurd now (closes name)
    · exact h.shut name before
  · intro name closed
    rcases since_snoc.mp closed with ⟨now,_⟩ | ⟨before,_⟩
    · exact absurd now (closes name)
    · exact h.still name before

theorem warned_snoc (h : Warned name log) (still : event ≠ .entered name) :
    Warned name (log ++ [event]) := since_snoc.mpr (Or.inr ⟨h,still⟩)

theorem mayClose_record (h : safe ⊆ mayClose workers log)
    (still : ∀ name, event ≠ .entered name) : safe ⊆ mayClose workers (log ++ [event]) := by
  intro name may running
  exact warned_snoc (h may running) (still name)

theorem running_started {thread : Thread} (running : Running (w.started thread)) :
    w.consumerOpen = true := by
  by_contra shut
  simp [Running, Worker.started, shut] at running

theorem running_of_works {sinks : List Sink} {w' : Worker ι} {deed : Option (Deed ι)}
    (alive : w.thread = .alive) (done : Works sinks w w' deed) (running : Running w') :
    Running w := by
  refine ⟨alive,?_⟩
  cases done with
  | stopped idle stop => exact absurd rfl running.2
  | passed idle go => exact running.2
  | listens at_ => exact running.2
  | @advanced x event phase next =>
    intro ended
    rw [ended] at next
    simp [advance] at next
  | finished => exact absurd rfl running.2

theorem running_of_delivers {sinks : List Sink} {w' : Worker ι} {deed : Deed ι}
    (alive : w.thread = .alive) (done : Works sinks w w' (some deed)) (delivers : Delivers deed) :
    Running w := by
  refine ⟨alive,?_⟩
  cases done with
  | passed idle go => exact delivers.elim
  | listens at_ => exact delivers.elim
  | @advanced x event phase next =>
    intro ended
    rw [ended] at next
    simp [advance] at next

/-- Between two actions: the code closes no consumer before it may, and nothing has come
    from a worker whose consumer was closed silently. -/
structure Guarded (m : Machine κ ι) : Prop where
  careful : Careful (mayClose m.app.workers m.app.log) m.code
  quiet : Quiet m.app.workers m.app.log

theorem guarded_fresh : Guarded ({} : Machine κ ι) := by
  refine ⟨trivial,?_,?_,throughout_nil⟩
  · intro name _
    rfl
  · intro name _ running
    cases running.1

end

section
variable {κ ι : Type} [DecidableEq κ]

variable {cfg : Config κ} {s : App κ ι} {workers : κ → Worker ι} {log : List (AppEvent κ ι)}
  {name : κ} {w : Worker ι} {i : Instr κ} {safe : Set κ}

theorem quiet_update (h : Quiet workers log)
    (shut : w.consumerOpen = true → (workers name).consumerOpen = true)
    (still : Running w → Running (workers name) ∨ (workers name).consumerOpen = true) :
    Quiet (Function.update workers name w) log := by
  refine ⟨?_,?_,h.never⟩
  · intro other closed
    by_cases this : other = name
    · subst other
      rw [Function.update_self, ← Bool.not_eq_true]
      intro open_
      rw [h.shut name closed] at shut
      exact absurd (shut open_) (by simp)
    · rw [Function.update_of_ne this]
      exact h.shut other closed
  · intro other closed running
    by_cases this : other = name
    · subst other
      rw [Function.update_self] at running
      rcases still running with already | open_
      · exact h.still name closed already
      · rw [h.shut name (closed_of_silently closed)] at open_
        contradiction
    · rw [Function.update_of_ne this] at running
      exact h.still other closed running

theorem quiet_entered (h : Quiet workers log) :
    Quiet (Function.update workers name w) (log ++ [.entered name]) := by
  refine ⟨?_,?_,throughout_snoc h.never (by simp)⟩
  · intro other closed
    rcases since_snoc.mp closed with now | ⟨before,again⟩
    · cases now
    · have this : other ≠ name := fun same => again (by rw [same])
      rw [Function.update_of_ne this]
      exact h.shut other before
  · intro other closed
    rcases since_snoc.mp closed with ⟨now,_⟩ | ⟨before,again⟩
    · cases now
    · have this : other ≠ name := fun same => again (by rw [same])
      rw [Function.update_of_ne this]
      exact h.still other before

theorem quiet_exited (h : Quiet workers log) (may : name ∈ mayClose workers log)
    (shut : w.consumerOpen = false) (same : Running w → Running (workers name)) :
    Quiet (Function.update workers name w) (log ++ [.exited name]) := by
  refine ⟨?_,?_,throughout_snoc h.never (by simp)⟩
  · intro other closed
    by_cases this : other = name
    · rw [this, Function.update_self]
      exact shut
    · rw [Function.update_of_ne this]
      rcases since_snoc.mp closed with now | ⟨before,_⟩
      · cases now
        contradiction
      · exact h.shut other before
  · intro other closed running
    by_cases this : other = name
    · subst other
      rw [Function.update_self] at running
      rcases since_snoc.mp closed with ⟨_,silent⟩ | ⟨before,_⟩
      · exact silent (may (same running))
      · exact h.still name before (same running)
    · rw [Function.update_of_ne this] at running
      rcases since_snoc.mp closed with ⟨now,_⟩ | ⟨before,_⟩
      · cases now
        contradiction
      · exact h.still other before running

theorem quiet_started (h : Quiet workers log) (thread : Thread) :
    Quiet (Function.update workers name ((workers name).started thread)) log :=
  quiet_update h (fun open_ => open_) fun running => Or.inr (running_started running)

theorem quiet_effect (h : Quiet s.workers s.log) (given : demand i (mayClose s.workers s.log)) :
    Quiet (effect cfg s i).workers (effect cfg s i).log := by
  apply kept_effect (P := Quiet) h
  · intro name _ _
    exact quiet_entered h
  · intro name same _
    rw [same] at given
    exact quiet_exited h given rfl id
  · intro name infinite _ _
    have noted : Quiet s.workers (s.log ++ [.reached name false]) :=
      quiet_record h (by simp) (by simp)
    exact quiet_record (quiet_started noted .alive) (by simp) (by simp)
  · intro name infinite _ _
    exact quiet_record h (by simp) (by simp)
  · intro name _
    exact quiet_update h id Or.inl
  · intro name _ _
    exact quiet_record h (by simp) (by simp)
  · intro _
    exact quiet_record h (by simp) (by simp)

theorem quiet_halfWay (h : Quiet s.workers s.log)
    (given : demand i (mayClose s.workers s.log)) :
    Quiet (halfWay s i).workers (halfWay s i).log := by
  apply kept_halfWay (P := Quiet) h
  · intro name same _
    rw [same] at given
    exact quiet_exited h given rfl id
  · intro name infinite _ _
    exact quiet_started h .ended

theorem quiet_work {sinks : List Sink} {deed : Option (Deed ι)} (h : Quiet workers log)
    (alive : (workers name).thread = .alive) (done : Works sinks (workers name) w deed) :
    Quiet (Function.update workers name w)
      (log ++ (deed.map (AppEvent.worker name)).toList) := by
  have shut : w.consumerOpen = (workers name).consumerOpen := by
    cases done <;> rfl
  have moved : Quiet (Function.update workers name w) log := by
    apply quiet_update h
    · rw [shut]
      exact id
    · exact fun running => Or.inl (running_of_works alive done running)
  cases deed with
  | none => simpa using moved
  | some deed =>
    apply quiet_record moved (by simp)
    intro other deed' same delivers closed
    cases same
    exact h.still name closed (running_of_delivers alive done delivers)

theorem mayClose_update (h : safe ⊆ mayClose workers log)
    (same : Running w → Running (workers name)) :
    safe ⊆ mayClose (Function.update workers name w) log := by
  intro other may running
  by_cases this : other = name
  · subst other
    rw [Function.update_self] at running
    exact h may (same running)
  · rw [Function.update_of_ne this] at running
    exact h may running

theorem mayClose_other {event : AppEvent κ ι}
    (still : ∀ other, event = .entered other → other = name) :
    mayClose workers log \ {name} ⊆ mayClose (Function.update workers name w) (log ++ [event]) := by
  intro other may running
  obtain ⟨may,this⟩ := may
  rw [Function.update_of_ne this] at running
  exact warned_snoc (may running) fun same => this (still other same)

theorem mayClose_effect : after i (mayClose s.workers s.log) ⊆
    mayClose (effect cfg s i).workers (effect cfg s i).log := by
  cases i with
  | enterWorker name =>
    simp only [after, effect, App.enterWorker]
    split
    · exact Set.sdiff_subset
    · exact mayClose_other (by simp)
  | exitWorker name =>
    simp only [after, effect, App.exitedWorker]
    split
    · exact mayClose_record (mayClose_update subset_rfl id) (by simp)
    · exact subset_rfl
  | startWorker name infinite =>
    simp only [after, effect, App.startWorker]
    split
    · exact mayClose_record (mayClose_other (by simp)) (by simp)
    · exact mayClose_record Set.sdiff_subset (by simp)
  | requestStop name => exact mayClose_update subset_rfl id
  | warnIfAlive name =>
    simp only [after, effect]
    split
    · intro other may running
      rcases Set.mem_insert_iff.mp may with same | before
      · subst other
        exact since_snoc.mpr (Or.inl rfl)
      · exact warned_snoc (before running) (by simp)
    · next dead =>
      intro other may running
      rcases Set.mem_insert_iff.mp may with same | before
      · subst other
        exact absurd (by simp [App.isAlive, Worker.isAlive, running.1]) dead
      · exact before running
  | handled => exact mayClose_record subset_rfl (by simp)
  | _ => exact subset_rfl

theorem guarded_unwind {m : Machine κ ι} {e : Exc} (quiet : Quiet s.workers s.log) :
    Guarded (m.unwind cfg s e) := by
  refine ⟨?_,quiet⟩
  simp only [Machine.unwind]
  split
  · exact careful_interrupted cfg e
  · trivial

theorem guarded_act {m : Machine κ ι} (h : Guarded m) (a : AppAction κ ι) :
    Guarded (act cfg m a) := by
  apply kept_act h a
  · intro op _ _
    refine ⟨careful_callCode cfg op,?_⟩
    cases op <;> exact h.quiet
  · intro i rest _ code _ _
    have checked := h.careful
    rw [code] at checked
    exact ⟨careful_next cfg (checks_rest monotone_careful mayClose_effect checked),
      quiet_effect h.quiet checked.1⟩
  · intro i rest e _ _ _
    exact guarded_unwind h.quiet
  · intro i rest e _ code
    have checked := h.careful
    rw [code] at checked
    exact guarded_unwind (quiet_halfWay h.quiet checked.1)
  · intro sig _ _
    exact ⟨careful_handleSignal cfg h.careful,h.quiet⟩
  · intro name x w deed _ done
    have alive := work_alive done
    have works := work_works done
    refine ⟨checks_mono monotone_careful ?_ h.careful,quiet_work h.quiet alive works⟩
    have moved : mayClose m.app.workers m.app.log ⊆
        mayClose (Function.update m.app.workers name w) m.app.log :=
      mayClose_update subset_rfl (running_of_works alive works)
    cases deed with
    | none => simpa [App.work, App.put] using moved
    | some deed => exact mayClose_record moved (by simp)
  · intro d _
    exact ⟨h.careful,h.quiet⟩

/-- Whatever the consumers, the timeout and the schedule: where a worker delivers after
    its consumer was closed, the exit that closed it had logged that the worker did not
    stop in time. -/
theorem delivers_closed_only_warned (cfg : Config κ) (acts : List (AppAction κ ι)) :
    ∀ m ∈ visited (act cfg) {} acts, NeverDelivers ClosedSilently m.app.log := by
  intro m member
  have guarded := always Guarded (fun m a h => guarded_act h a) guarded_fresh m member
  exact guarded.quiet.never

end

def hasty : Config String where
  names := ["orders"]
  distinct := List.nodup_singleton "orders"
  sinks _ := [⟨"first",true⟩,⟨"second",true⟩]
  shutdownTimeout := 0

def firstBatch : Batch Int := ⟨"orders","orders/1-1",1,1,[1],0,[7],none⟩

/-- The worker is between its two sinks when the exit gives up on it. -/
def slowSink : List (AppAction String Int) :=
  [.call .enter] ++ List.replicate 5 AppAction.exec ++
  [.call (.run true)] ++ List.replicate 7 AppAction.exec ++
  [.work "orders" .check,.work "orders" .listen,.work "orders" (.listened [⟨some 1,some 1,1,7⟩]),
    .work "orders" (.write firstBatch none),.signal .sigint] ++ List.replicate 12 AppAction.exec ++
  [.call .exit] ++ List.replicate 11 AppAction.exec ++ [.work "orders" (.write firstBatch none)]

def beforeExit : List (AppEvent String Int) :=
  [.entered "orders",.reached "orders" false,.ran "orders" true,.worker "orders" .passedCheck,
   .worker "orders" .listens,.worker "orders" (.did (.listened [⟨some 1,some 1,1,7⟩])),
   .worker "orders" (.did (.wrote 0 firstBatch none)),.handled,.warned "orders"]

theorem slowSink_log : (slowSink.foldl (act hasty) {}).app.log =
    beforeExit ++ [.exited "orders",.worker "orders" (.did (.wrote 1 firstBatch none))] := by
  decide +kernel

theorem slowSink_visited :
    slowSink.foldl (act hasty) {} ∈ visited (act hasty) {} slowSink :=
  foldl_visited _ (by simp [slowSink])

theorem slowSink_delivers_warned :
    NeverDelivers ClosedSilently (slowSink.foldl (act hasty) {}).app.log :=
  delivers_closed_only_warned hasty slowSink _ slowSink_visited

/-- A worker may well deliver after its consumer was closed. -/
theorem delivers_after_close : ¬ ∀ (cfg : Config String) (acts : List (AppAction String Int)),
    ∀ m ∈ visited (act cfg) {} acts, NeverDelivers Closed m.app.log := by
  intro all
  have never := all hasty slowSink _ slowSink_visited
  rw [slowSink_log] at never
  have split : beforeExit ++ [.exited "orders",.worker "orders" (.did (.wrote 1 firstBatch none))] =
      (beforeExit ++ [.exited "orders"]) ++ .worker "orders" (.did (.wrote 1 firstBatch none)) :: [] :=
    by simp
  apply never _ _ _ split "orders" _ rfl trivial
  exact ⟨beforeExit,_,[],rfl,rfl,fun _ no => absurd no List.not_mem_nil⟩

end CdcShutdown
