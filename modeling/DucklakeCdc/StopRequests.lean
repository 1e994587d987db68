import DucklakeCdc.AppHosting
import DucklakeCdc.CheckedCode

/-!
Stop requests. A handled signal sets the `stop_event` of every worker, and a worker reads
its event before each listen. What can lose the request is `_Worker.start`: it clears
the event of a worker whose thread does not exist yet.
-/
namespace CdcStopRequests
open Programs Histories CheckedCode CdcRetry CdcLoop DeliveryProtocol CdcApp

section
variable {κ ι : Type}

def Listened (name : κ) : List (AppEvent κ ι) → Prop :=
  Since (fun _ event => event = .worker name .listens) (fun event => event = .handled)

def ListenedTwice (name : κ) : List (AppEvent κ ι) → Prop :=
  Since (fun before event => event = .worker name .listens ∧ Listened name before)
    (fun event => event = .handled)

/-- The worker has checked its stop event for a listen that it did not begin yet. -/
def Armed (name : κ) : List (AppEvent κ ι) → Prop :=
  Since (fun _ event => event = .worker name .passedCheck)
    (fun event => event = .worker name .listens)

/-- When the last signal was handled, the worker had not checked for another listen. -/
def HandledUnarmed (name : κ) : List (AppEvent κ ι) → Prop :=
  Since (fun before event => event = .handled ∧ ¬ Armed name before)
    (fun event => event = .handled)

/-- The request stands: the events stay set, and a worker begins no listen but the one it
    had checked for when the signal was handled. -/
def StopKept (cfg : Config κ) (m : Machine κ ι) : Prop :=
  m.app.requested = true → ∀ name ∈ cfg.names, (m.app.workers name).stopEvent = true ∧
    ¬ ListenedTwice name m.app.log ∧ (HandledUnarmed name m.app.log → ¬ Listened name m.app.log)

/-- `run` does not come to start a worker for the first time after a signal was handled. -/
def StartsNone (cfg : Config κ) (m : Machine κ ι) (a : AppAction κ ι) : Prop :=
  (a = .exec ∨ ∃ e, a = .raise e) → m.app.requested = true → ∀ name ∈ cfg.names,
    ∀ infinite rest, m.code = .startWorker name infinite :: rest →
      (m.app.workers name).thread ≠ .absent

section
variable (cfg : Config κ)

def demand (i : Instr κ) (stopped : Set κ) : Prop :=
  match i with
  | .handled => ∀ name ∈ cfg.names, name ∈ stopped
  | _ => True

def after (i : Instr κ) (stopped : Set κ) : Set κ :=
  match i with
  | .requestStop name => insert name stopped
  | .startWorker name _ => stopped \ {name}
  | _ => stopped

def Setting : Set κ → List (Instr κ) → Prop := Checks (demand cfg) after fun _ => True

end

def stoppedOnes (workers : κ → Worker ι) : Set κ := {name | (workers name).stopEvent = true}

variable {cfg : Config κ} {code rest : List (Instr κ)} {stopped : Set κ} {names : List κ}

theorem monotone_setting :
    Monotone (A := Set κ) (demand cfg) after (fun _ => True) (· ⊆ ·) where
  demand i a b more h := by
    cases i with
    | handled => exact fun name member => more (h name member)
    | _ => trivial
  after i a b more := by
    cases i with
    | requestStop name => exact Set.insert_subset_insert more
    | startWorker name infinite => exact Set.sdiff_subset_sdiff_left more
    | _ => exact more
  last _ _ _ h := h

theorem setting_of_no_handler (none_handled : .handled ∉ code) : Setting cfg stopped code := by
  apply checks_undemanding
  · intro i member more
    cases i with
    | handled => exact absurd member none_handled
    | _ => trivial
  · exact fun _ => trivial

theorem setting_requestStops
    (later : ∀ more : Set κ, stopped ⊆ more → (∀ name ∈ names, name ∈ more) →
      Setting cfg more rest) : Setting cfg stopped (names.map .requestStop ++ rest) := by
  rw [List.map_eq_flatMap]
  apply checks_gathered
  · intro name more code h
    exact ⟨trivial,h⟩
  · exact later

theorem setting_handleSignal (later : Setting cfg stopped code) :
    Setting cfg stopped (handleSignalCode cfg ++ code) := by
  simp only [handleSignalCode, lookUp, List.append_assoc, List.cons_append, List.nil_append]
  refine ⟨trivial,trivial,trivial,setting_requestStops ?_⟩
  intro more wider all
  exact ⟨all,checks_mono monotone_setting wider later⟩

theorem setting_callCode (op : Call) : Setting cfg stopped (callCode cfg op) := by
  apply setting_of_no_handler
  cases op <;> simp [callCode, enterCode, exitCode, runCode, lookUp]

theorem setting_interrupted (e : Exc) : Setting cfg stopped (interruptedCode cfg e) :=
  setting_of_no_handler (by simp [interruptedCode])

theorem setting_next {s : App κ ι} {i : Instr κ} (h : Setting cfg stopped rest) :
    Setting cfg stopped (next cfg s rest i) := by
  obtain ⟨more,same,waits⟩ := next_adds cfg s rest i
  rw [same, Setting, checks_neutral]
  · exact h
  · intro j member
    cases waits j member <;> exact fun _ => ⟨trivial,rfl⟩

structure Heeds (name : κ) (w : Worker ι) (log : List (AppEvent κ ι)) : Prop where
  stop : w.stopEvent = true
  unchecked : Listened name log ∨ HandledUnarmed name log → w.asking ≠ .checked
  once : ¬ ListenedTwice name log
  unarmed : HandledUnarmed name log → ¬ Listened name log

/-- Every worker's next listen has its check in the log, and once a request stands,
    every worker heeds it. -/
structure Heeding (cfg : Config κ) (requested : Bool) (workers : κ → Worker ι)
    (log : List (AppEvent κ ι)) : Prop where
  armed : ∀ name, (workers name).asking = .checked → Armed name log
  heeds : requested = true → ∀ name ∈ cfg.names, Heeds name (workers name) log

variable {requested : Bool} {workers : κ → Worker ι} {log : List (AppEvent κ ι)} {name : κ}
  {w : Worker ι} {event : AppEvent κ ι}

theorem heeds_record (h : Heeds name w log) (handles : event ≠ .handled)
    (listens : event ≠ .worker name .listens) : Heeds name w (log ++ [event]) := by
  have listened : Listened name (log ++ [event]) → Listened name log := by
    intro since
    rcases since_snoc.mp since with now | ⟨before,_⟩
    · exact absurd now listens
    · exact before
  have unarmed : HandledUnarmed name (log ++ [event]) → HandledUnarmed name log := by
    intro since
    rcases since_snoc.mp since with ⟨now,_⟩ | ⟨before,_⟩
    · exact absurd now handles
    · exact before
  refine ⟨h.stop,?_,?_,fun since => fun later => h.unarmed (unarmed since) (listened later)⟩
  · intro since
    rcases since with since | since
    · exact h.unchecked (Or.inl (listened since))
    · exact h.unchecked (Or.inr (unarmed since))
  · intro twice
    rcases since_snoc.mp twice with ⟨now,_⟩ | ⟨before,_⟩
    · exact listens now
    · exact h.once before

theorem heeding_record (h : Heeding cfg requested workers log) (handles : event ≠ .handled)
    (listens : ∀ name, event ≠ .worker name .listens) :
    Heeding cfg requested workers (log ++ [event]) where
  armed name at_ := since_snoc.mpr (Or.inr ⟨h.armed name at_,listens name⟩)
  heeds asked name member := heeds_record (h.heeds asked name member) handles (listens name)

theorem heeding_handled (armed : ∀ name, (workers name).asking = .checked → Armed name log)
    (stops : ∀ name ∈ cfg.names, (workers name).stopEvent = true) :
    Heeding cfg requested workers (log ++ [.handled]) := by
  have unheard : ∀ name, ¬ Listened name (log ++ [.handled]) := by
    intro name since
    rcases since_snoc.mp since with now | ⟨_,again⟩
    · cases now
    · exact again rfl
  constructor
  · intro name at_
    exact since_snoc.mpr (Or.inr ⟨armed name at_,by simp⟩)
  · intro _ name member
    refine ⟨stops name member,?_,?_,fun _ => unheard name⟩
    · intro since at_
      rcases since with since | since
      · exact unheard name since
      · rcases since_snoc.mp since with ⟨_,free⟩ | ⟨_,again⟩
        · exact free (armed name at_)
        · exact again rfl
    · intro twice
      rcases since_snoc.mp twice with ⟨now,_⟩ | ⟨_,again⟩
      · cases now
      · exact again rfl

structure Steady (cfg : Config κ) (m : Machine κ ι) : Prop where
  setting : Setting cfg (stoppedOnes m.app.workers) m.code
  heeding : Heeding cfg m.app.requested m.app.workers m.app.log

theorem stopKept_of_steady {m : Machine κ ι} (h : Steady cfg m) : StopKept cfg m := by
  intro asked name member
  have heeds := h.heeding.heeds asked name member
  exact ⟨heeds.stop,heeds.once,heeds.unarmed⟩

end

section
variable {κ ι : Type} [DecidableEq κ] {cfg : Config κ} {requested : Bool}
  {workers : κ → Worker ι} {log : List (AppEvent κ ι)} {name : κ} {w : Worker ι}
  {s : App κ ι} {i : Instr κ} {m : Machine κ ι} {a : AppAction κ ι}

theorem heeding_update (h : Heeding cfg requested workers log)
    (stop : requested = true → name ∈ cfg.names → w.stopEvent = true)
    (asking : w.asking = .checked → (workers name).asking = .checked) :
    Heeding cfg requested (Function.update workers name w) log := by
  constructor
  · intro other at_
    by_cases this : other = name
    · subst other
      rw [Function.update_self] at at_
      exact h.armed name (asking at_)
    · rw [Function.update_of_ne this] at at_
      exact h.armed other at_
  · intro asked other member
    have heeds := h.heeds asked other member
    by_cases this : other = name
    · subst other
      rw [Function.update_self]
      exact ⟨stop asked member,fun since at_ => heeds.unchecked since (asking at_),heeds.once,
        heeds.unarmed⟩
    · rw [Function.update_of_ne this]
      exact heeds

theorem heeding_passed (h : Heeding cfg requested workers log)
    (go : (workers name).stopEvent = false) :
    Heeding cfg requested
      (Function.update workers name { workers name with asking := .checked })
      (log ++ [.worker name .passedCheck]) := by
  constructor
  · intro other at_
    by_cases this : other = name
    · subst other
      exact since_snoc.mpr (Or.inl rfl)
    · rw [Function.update_of_ne this] at at_
      exact since_snoc.mpr (Or.inr ⟨h.armed other at_,by simp⟩)
  · intro asked other member
    have heeds := h.heeds asked other member
    have this : other ≠ name := by
      intro same
      rw [same] at heeds
      exact absurd heeds.stop (by simp [go])
    rw [Function.update_of_ne this]
    exact heeds_record heeds (by simp) (by simp)

theorem heeding_listens (h : Heeding cfg requested workers log)
    (checked : (workers name).asking = .checked) :
    Heeding cfg requested
      (Function.update workers name { workers name with asking := .listening })
      (log ++ [.worker name .listens]) := by
  constructor
  · intro other at_
    have this : other ≠ name := by
      intro same
      rw [same, Function.update_self] at at_
      cases at_
    rw [Function.update_of_ne this] at at_
    exact since_snoc.mpr (Or.inr ⟨h.armed other at_,by simp [Ne.symm this]⟩)
  · intro asked other member
    have heeds := h.heeds asked other member
    by_cases this : other = name
    · subst other
      rw [Function.update_self]
      refine ⟨heeds.stop,fun _ => by simp,?_,?_⟩
      · intro twice
        rcases since_snoc.mp twice with ⟨_,listened⟩ | ⟨before,_⟩
        · exact heeds.unchecked (Or.inl listened) checked
        · exact heeds.once before
      · intro since
        rcases since_snoc.mp since with ⟨now,_⟩ | ⟨before,_⟩
        · cases now
        · exact absurd checked (heeds.unchecked (Or.inr before))
    · rw [Function.update_of_ne this]
      exact heeds_record heeds (by simp) (by simp [Ne.symm this])

theorem heeding_work {sinks : List Sink} {deed : Option (Deed ι)}
    (h : Heeding cfg requested workers log) (done : Works sinks (workers name) w deed) :
    Heeding cfg requested (Function.update workers name w)
      (log ++ (deed.map (AppEvent.worker name)).toList) := by
  have stops : requested = true → name ∈ cfg.names → (workers name).stopEvent = true :=
    fun asked member => (h.heeds asked name member).stop
  cases done with
  | stopped idle stop =>
    have kept := heeding_update (w := { workers name with phase := .ended }) h stops id
    simpa using kept
  | passed idle go => exact heeding_passed h go
  | listens at_ => exact heeding_listens h at_
  | advanced next =>
    exact heeding_record (heeding_update h stops fun no => by cases no) (by simp) (by simp)
  | finished =>
    have kept := heeding_update
      (w := { workers name with thread := .ended, phase := .ended, asking := .no }) h stops
      fun no => by cases no
    simpa using kept

def Harmless (cfg : Config κ) (s : App κ ι) (i : Instr κ) : Prop :=
  s.requested = true → ∀ name ∈ cfg.names, ∀ infinite, i = .startWorker name infinite →
    (s.workers name).thread ≠ .absent

theorem effect_requested (other : i ≠ .handled) : (effect cfg s i).requested = s.requested := by
  cases i with
  | enterWorker name => exact (congrArg App.requested (own_enterWorker s name) :)
  | exitWorker name => exact (congrArg App.requested (own_exitedWorker s name false) :)
  | startWorker name infinite => exact (congrArg App.requested (own_startWorker s name infinite) :)
  | warnIfAlive name => exact (congrArg App.requested (own_warnIfAlive cfg s name) :)
  | handled => exact absurd rfl other
  | _ => rfl

theorem halfWay_requested : (halfWay s i).requested = s.requested :=
  (congrArg App.requested (own_halfWay s i) :)

theorem heeding_effect (h : Heeding cfg s.requested s.workers s.log) (harmless : Harmless cfg s i)
    (given : demand cfg i (stoppedOnes s.workers)) :
    Heeding cfg (effect cfg s i).requested (effect cfg s i).workers (effect cfg s i).log := by
  have stops : ∀ name, s.requested = true → name ∈ cfg.names →
      (s.workers name).stopEvent = true :=
    fun name asked member => (h.heeds asked name member).stop
  by_cases ending : i = .handled
  · subst i
    exact heeding_handled h.armed given
  · rw [effect_requested ending]
    apply kept_effect (P := Heeding cfg s.requested) h
    · intro name _ _
      exact heeding_record (heeding_update h (stops name) id) (by simp) (by simp)
    · intro name _ _
      exact heeding_record (heeding_update h (stops name) id) (by simp) (by simp)
    · intro name infinite same absent
      have unasked : s.requested = true → name ∈ cfg.names →
          ((s.workers name).started .alive).stopEvent = true :=
        fun asked member => absurd absent (harmless asked name member infinite same)
      have noted : Heeding cfg s.requested s.workers (s.log ++ [.reached name false]) :=
        heeding_record h (by simp) (by simp)
      exact heeding_record (heeding_update noted unasked fun no => by cases no) (by simp) (by simp)
    · intro name infinite _ _
      exact heeding_record h (by simp) (by simp)
    · intro name _
      exact heeding_update h (fun _ _ => rfl) id
    · intro name _ _
      exact heeding_record h (by simp) (by simp)
    · intro same
      exact absurd same ending

theorem heeding_halfWay (h : Heeding cfg s.requested s.workers s.log)
    (harmless : Harmless cfg s i) :
    Heeding cfg s.requested (halfWay s i).workers (halfWay s i).log := by
  apply kept_halfWay (P := Heeding cfg s.requested) h
  · intro name _ _
    have stops : s.requested = true → name ∈ cfg.names → (s.workers name).stopEvent = true :=
      fun asked member => (h.heeds asked name member).stop
    exact heeding_record (heeding_update h stops id) (by simp) (by simp)
  · intro name infinite same absent
    have unasked : s.requested = true → name ∈ cfg.names →
        ((s.workers name).started .ended).stopEvent = true :=
      fun asked member => absurd absent (harmless asked name member infinite same)
    exact heeding_update h unasked fun no => by cases no

theorem stoppedOnes_update (h : (workers name).stopEvent = true → w.stopEvent = true) :
    stoppedOnes workers ⊆ stoppedOnes (Function.update workers name w) := by
  intro other stopped
  by_cases this : other = name
  · subst other
    simpa [stoppedOnes] using h stopped
  · simpa [stoppedOnes, this] using stopped

theorem stoppedOnes_effect : after i (stoppedOnes s.workers) ⊆
    stoppedOnes (effect cfg s i).workers := by
  cases i with
  | enterWorker name =>
    simp only [after, effect, App.enterWorker]
    split
    · exact subset_rfl
    · exact stoppedOnes_update id
  | exitWorker name =>
    simp only [after, effect, App.exitedWorker]
    split
    · exact stoppedOnes_update id
    · exact subset_rfl
  | startWorker name infinite =>
    simp only [after, effect, App.startWorker]
    split
    · intro other stopped
      obtain ⟨stopped,this⟩ := stopped
      simpa [stoppedOnes, App.record, App.put, Set.mem_singleton_iff.not.mp this] using stopped
    · exact Set.sdiff_subset
  | requestStop name =>
    intro other stopped
    rcases Set.mem_insert_iff.mp stopped with same | before
    · subst other
      simp [stoppedOnes, effect, App.put]
    · exact stoppedOnes_update (fun _ => rfl) before
  | warnIfAlive name =>
    simp only [after, effect]
    split <;> exact subset_rfl
  | _ => exact subset_rfl

theorem steady_unwind {e : Exc} (h : Heeding cfg s.requested s.workers s.log) :
    Steady cfg (m.unwind cfg s e) := by
  refine ⟨?_,h⟩
  simp only [Machine.unwind]
  split
  · exact setting_interrupted e
  · trivial

theorem steady_act (h : Steady cfg m) (clean : StartsNone cfg m a) : Steady cfg (act cfg m a) := by
  apply kept_act h a
  · intro op _ _
    refine ⟨setting_callCode op,?_⟩
    cases op with
    | exit => exact ⟨h.heeding.armed,fun no => by cases no⟩
    | _ => exact h.heeding
  · intro i rest same code _ _
    have checked := h.setting
    rw [code] at checked
    have harmless : Harmless cfg m.app i := by
      intro asked name member infinite this
      subst i
      exact clean (Or.inl same) asked name member infinite rest code
    exact ⟨setting_next (checks_rest monotone_setting stoppedOnes_effect checked),
      heeding_effect h.heeding harmless checked.1⟩
  · intro i rest e _ _ _
    exact steady_unwind h.heeding
  · intro i rest e same code
    have harmless : Harmless cfg m.app i := by
      intro asked name member infinite this
      subst i
      exact clean (Or.inr ⟨e,same⟩) asked name member infinite rest code
    have kept := heeding_halfWay h.heeding harmless
    rw [← halfWay_requested (i := i)] at kept
    exact steady_unwind kept
  · intro sig _ _
    exact ⟨setting_handleSignal h.setting,h.heeding⟩
  · intro name x w deed _ done
    have works := work_works done
    have kept : (m.app.workers name).stopEvent = true → w.stopEvent = true := by
      cases works <;> exact id
    exact ⟨checks_mono monotone_setting (stoppedOnes_update kept) h.setting,
      heeding_work h.heeding works⟩
  · intro d _
    exact ⟨h.setting,h.heeding⟩

theorem start_clears (cfg : Config κ) {infinite : Bool} {rest : List (Instr κ)}
    (turn : a = .exec ∨ ∃ e, a = .raise e) (code : m.code = .startWorker name infinite :: rest)
    (absent : (m.app.workers name).thread = .absent) :
    (act cfg m a).app.requested = m.app.requested ∧
      ((act cfg m a).app.workers name).stopEvent = false := by
  rcases turn with rfl | ⟨e,rfl⟩
  · simp [act, possible, code, ready, Machine.exec, refusal, effect, App.startWorker, absent,
      App.record, App.put, Worker.started]
  · simp [act, possible, code, Machine.unwind, halfWay, absent, App.put, Worker.started]

theorem startsNone_of_act (safe : StopKept cfg (act cfg m a)) : StartsNone cfg m a := by
  intro turn asked name member infinite rest code absent
  obtain ⟨same,cleared⟩ := start_clears cfg turn code absent
  rw [← same] at asked
  obtain ⟨stop,_⟩ := safe asked name member
  rw [cleared] at stop
  cases stop

/-- A handled stop request stands until the end of the block if and only if `run` starts no
    worker for the first time after it. -/
theorem stop_kept_iff (cfg : Config κ) (acts : List (AppAction κ ι)) :
    (∀ m ∈ visited (act cfg) {} acts, StopKept cfg m) ↔
      EveryStep (act cfg) (StartsNone cfg) {} acts := by
  apply safe_iff_clean (Steady cfg)
  · exact fun m a h clean => steady_act h clean
  · exact fun m h => stopKept_of_steady h
  · exact fun m a _ safe => startsNone_of_act safe
  · refine ⟨trivial,?_,?_⟩
    · intro name no
      cases no
    · intro no
      cases no

end

section
variable {ι : Type} {cdc : Extension ι} {c : Consumer} {o : BatchOptions}

def isListened : Event ι → Bool
  | .listened _ => true
  | _ => false

def listens (trace : List (Event ι)) : Nat := trace.countP isListened

structure Stopped (n : Nat) (w : World ι) : Prop where
  set_ : w.stopSet = true
  count : listens w.trace = n

theorem ambient_stopped (n : Nat) : Ambient (ι := ι) (Stopped n) where
  meet w rest act _ h := by
    have same :
        listens (act.lands.foldl World.land { w with script := rest }).trace = listens w.trace :=
      foldl_land (fun u => listens u.trace)
        (fun u items => by simp [World.land, listens, isListened]) act.lands _
    refine ⟨?_,same.trans h.count⟩
    simp [World.meet, h.set_]
  clock w t h := ⟨h.set_,h.count⟩

/-- The check that a worker makes before each listen: with the event set, the generator of
    `batches` returns without another listen. -/
theorem poll_stopped {n : Nat} (given : o.stopEvent = true) (fuel : Nat) (g : Generator)
    (w : World ι) (h : Stopped n w) :
    Ends (poll cdc c o fuel g) w (fun batch u => batch = none ∧ Stopped n u)
      (fun _ => Stopped n) := by
  cases fuel with
  | zero => exact h
  | succ fuel =>
    rw [poll, ends_bind, stopRequested, if_pos given, ends_bind]
    apply ends_mono (keeps_step (ambient_stopped n) w h) _ (fun _ _ hu => hu)
    intro _ u stopped
    rw [ends_bind, ends_get, ends_pure, if_pos stopped.set_]
    exact ⟨rfl,stopped⟩

end

/-- The signal is handled before `run` is called. -/
def signalBeforeRun : List (AppAction String Int) :=
  [.call .enter] ++ List.replicate 5 AppAction.exec ++ [.signal .sigterm] ++
    List.replicate 5 AppAction.exec ++ [.call (.run true)] ++ List.replicate 4 AppAction.exec

theorem stop_lost : ¬ ∀ (cfg : Config String) (acts : List (AppAction String Int)),
    ∀ m ∈ visited (act cfg) {} acts, StopKept cfg m := by
  intro all
  have kept := all .orders signalBeforeRun _ (foldl_visited _ (by simp [signalBeforeRun]))
  have stop := (kept (by decide +kernel) "orders" (by simp [Config.orders])).1
  have cleared : ((signalBeforeRun.foldl (act .orders) {}).app.workers "orders").stopEvent =
      false := by
    decide +kernel
  rw [cleared] at stop
  cases stop

end CdcStopRequests
