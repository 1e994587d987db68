import DucklakeCdc.AppHosting
import DucklakeCdc.Brackets
import DucklakeCdc.CheckedCode

/-!
What a `CDCApp` holds: the consumers it has entered and the signal handlers it has
replaced. `__enter__` acquires them one by one and `__exit__` releases them one by one;
neither guards its loop, so an exception on the way leaves the rest held.
-/
namespace CdcAppResources
open Histories CheckedCode Brackets CdcRetry CdcLoop CdcApp

section
variable {κ ι : Type}

def ofConsumers : AppEvent κ ι → Option (Brackets.Event κ)
  | .entered name => some (.opened name)
  | .exited name => some (.closed name)
  | _ => none

def brackets (log : List (AppEvent κ ι)) : List (Brackets.Event κ) := log.filterMap ofConsumers

theorem brackets_snoc {log : List (AppEvent κ ι)} {event : AppEvent κ ι} :
    brackets (log ++ [event]) = brackets log ++ (ofConsumers event).toList := by
  cases of : ofConsumers event <;> simp [brackets, of]

theorem brackets_work {log : List (AppEvent κ ι)} (name : κ) (deed : Option (Deed ι)) :
    brackets (log ++ (deed.map (AppEvent.worker name)).toList) = brackets log := by
  cases deed with
  | none => simp
  | some deed => simp [brackets_snoc, ofConsumers]

/-- What is held, as far as the code of a call changes it. -/
structure Load (κ : Type) where
  held : Set κ
  installed : Prop
  inside : Bool

def Load.Settled (l : Load κ) : Prop :=
  l.inside = true ∨ ((∀ name, name ∉ l.held) ∧ ¬ l.installed)

def Load.Below (a b : Load κ) : Prop :=
  b.held ⊆ a.held ∧ (b.installed → a.installed) ∧ a.inside = b.inside

theorem settled_below {a b : Load κ} (below : a.Below b) (h : a.Settled) : b.Settled := by
  obtain ⟨held,installed,inside⟩ := below
  rcases h with within_ | ⟨none_held,none_installed⟩
  · exact Or.inl (inside ▸ within_)
  · exact Or.inr ⟨fun name member => none_held name (held member),
      fun is_ => none_installed (installed is_)⟩

section
variable (cfg : Config κ)

def demand (i : Instr κ) (l : Load κ) : Prop :=
  match i with
  | .enterWorker name => name ∈ cfg.names
  | .installSignalHandlers => ¬ l.installed
  | .requireOpened => l.Settled
  | .requireWorkers => l.Settled
  | .raiseAgain _ => l.Settled
  | _ => True

def after (i : Instr κ) (l : Load κ) : Load κ :=
  match i with
  | .enterWorker name => { l with held := insert name l.held }
  | .exitWorker name => { l with held := l.held \ {name} }
  | .installSignalHandlers => { l with installed := True }
  | .restoreSignalHandlers => { l with installed := False }
  | .setOpened value => { l with inside := value }
  | _ => l

/-- Code that gives back what it has taken, unless it ends inside the block. -/
def Balanced : Load κ → List (Instr κ) → Prop := Checks (demand cfg) after Load.Settled

def Neutral (i : Instr κ) : Prop := ∀ l : Load κ, demand cfg i l ∧ after i l = l

end

variable {cfg : Config κ} {code rest : List (Instr κ)} {l : Load κ} {names : List κ}

theorem monotone_balanced :
    Monotone (A := Load κ) (demand cfg) after Load.Settled Load.Below where
  demand i a b below h := by
    cases i with
    | installSignalHandlers => exact fun is_ => h (below.2.1 is_)
    | requireOpened => exact settled_below below h
    | requireWorkers => exact settled_below below h
    | raiseAgain e => exact settled_below below h
    | _ => exact h
  after i a b below := by
    obtain ⟨held,installed,inside⟩ := below
    cases i with
    | enterWorker name => exact ⟨Set.insert_subset_insert held,installed,inside⟩
    | exitWorker name => exact ⟨Set.sdiff_subset_sdiff_left held,installed,inside⟩
    | installSignalHandlers => exact ⟨held,fun _ => trivial,inside⟩
    | restoreSignalHandlers => exact ⟨held,id,inside⟩
    | setOpened value => exact ⟨held,installed,rfl⟩
    | _ => exact ⟨held,installed,inside⟩
  last _ _ below h := settled_below below h

theorem balanced_neutral (neutral : ∀ i ∈ code, Neutral cfg i) :
    Balanced cfg l (code ++ rest) ↔ Balanced cfg l rest := checks_neutral neutral

theorem balanced_requestStops :
    Balanced cfg l (names.map .requestStop ++ rest) ↔ Balanced cfg l rest :=
  checks_neutral_map fun _ _ => ⟨trivial,rfl⟩

theorem balanced_joins :
    Balanced cfg l (names.flatMap (fun name => [.join name,.warnIfAlive name]) ++ rest) ↔
      Balanced cfg l rest := by
  apply checks_neutral_loop
  intro name i inside
  simp only [List.mem_cons, List.not_mem_nil, or_false] at inside
  rcases inside with rfl | rfl <;> exact fun _ => ⟨trivial,rfl⟩

theorem balanced_enters (known : ∀ name ∈ names, name ∈ cfg.names)
    (later : ∀ held, Balanced cfg { l with held := held } rest) :
    Balanced cfg l (names.map .enterWorker ++ rest) := by
  induction names generalizing l with
  | nil => exact later l.held
  | cons first names ih =>
    refine ⟨known first List.mem_cons_self,ih ?_ later⟩
    exact fun name member => known name (List.mem_cons_of_mem first member)

theorem balanced_exits (all : ∀ name ∈ l.held, name ∈ names)
    (later : Balanced cfg { l with held := ∅ } rest) :
    Balanced cfg l (names.map .exitWorker ++ rest) := by
  induction names generalizing l with
  | nil =>
    have empty : l.held = ∅ := Set.eq_empty_of_forall_notMem fun name member => by
      simpa using all name member
    rw [← empty] at later
    exact later
  | cons first names ih =>
    refine ⟨trivial,ih ?_ later⟩
    intro name member
    obtain ⟨held,this⟩ := member
    exact (List.mem_cons.mp (all name held)).resolve_left this

theorem balanced_enterCode (fresh : ¬ l.installed) : Balanced cfg l (enterCode cfg) := by
  simp only [enterCode, lookUp, List.cons_append, List.nil_append]
  refine ⟨trivial,trivial,balanced_enters (fun _ member => member) ?_⟩
  exact fun held => ⟨fresh,trivial,Or.inl rfl⟩

theorem balanced_exitCode (known : ∀ name ∈ l.held, name ∈ cfg.names) :
    Balanced cfg l (exitCode cfg) := by
  simp only [exitCode, lookUp, List.append_assoc, List.cons_append, List.nil_append]
  refine ⟨trivial,trivial,trivial,trivial,?_⟩
  rw [← Balanced, balanced_requestStops]
  refine ⟨trivial,?_⟩
  rw [← Balanced, balanced_joins]
  apply balanced_exits (l := { l with inside := false }) known
  exact ⟨trivial,trivial,Or.inr ⟨fun _ => id,id⟩⟩

theorem balanced_runCode (infinite : Bool) (settled : l.Settled) :
    Balanced cfg l (runCode cfg infinite) := by
  simp only [runCode, List.cons_append, List.nil_append]
  have waiting : Balanced cfg l [.release,.tryWait,.waitForWorkers,.exceptInterrupt] :=
    ⟨trivial,trivial,trivial,trivial,settled⟩
  exact ⟨settled,trivial,settled,(checks_neutral_map fun _ _ => ⟨trivial,rfl⟩).mpr waiting⟩

theorem balanced_interrupted (e : Exc) (settled : l.Settled) :
    Balanced cfg l (interruptedCode cfg e) := by
  simp only [interruptedCode, List.cons_append, List.nil_append]
  refine ⟨trivial,?_⟩
  rw [← Balanced, balanced_requestStops]
  exact ⟨trivial,settled,settled⟩

theorem balanced_handleSignal (later : Balanced cfg l code) :
    Balanced cfg l (handleSignalCode cfg ++ code) := by
  simp only [handleSignalCode, lookUp, List.append_assoc, List.cons_append, List.nil_append]
  refine ⟨trivial,trivial,trivial,?_⟩
  rw [← Balanced, balanced_requestStops]
  exact ⟨trivial,later⟩

theorem balanced_next {s : App κ ι} {i : Instr κ} (h : Balanced cfg l rest) :
    Balanced cfg l (next cfg s rest i) := by
  obtain ⟨more,same,waits⟩ := next_adds cfg s rest i
  rw [same, balanced_neutral]
  · exact h
  · intro j member
    cases waits j member <;> exact fun _ => ⟨trivial,rfl⟩

def Idle (i : Instr κ) : Prop := ∀ l : Load κ, after i l = l

theorem settled_of_idle (idle : ∀ i ∈ code, Idle i) (h : Balanced cfg l code) : l.Settled := by
  induction code with
  | nil => exact h
  | cons i rest ih =>
    have later := h.2
    rw [idle i List.mem_cons_self] at later
    exact ih (fun j member => idle j (List.mem_cons_of_mem i member)) later

theorem idle_runCode (infinite : Bool) : ∀ i ∈ runCode cfg infinite, Idle i := by
  intro i member
  simp only [runCode, List.mem_append, List.mem_cons, List.not_mem_nil, or_false,
    List.mem_map] at member
  rcases member with ((rfl | rfl | rfl) | ⟨name,_,rfl⟩) | (rfl | rfl | rfl | rfl) <;>
    exact fun _ => rfl

theorem idle_handleSignal : ∀ i ∈ handleSignalCode cfg, Idle i := by
  intro i member
  simp only [handleSignalCode, lookUp, List.mem_append, List.mem_cons, List.not_mem_nil, or_false,
    List.mem_map] at member
  rcases member with ((rfl | (rfl | rfl)) | ⟨name,_,rfl⟩) | rfl <;> exact fun _ => rfl

theorem idle_next {s : App κ ι} {i : Instr κ} (idle : ∀ j ∈ rest, Idle j) :
    ∀ j ∈ next cfg s rest i, Idle j := by
  obtain ⟨more,same,waits⟩ := next_adds cfg s rest i
  rw [same]
  intro j member
  rcases List.mem_append.mp member with looping | later
  · cases waits j looping <;> exact fun _ => rfl
  · exact idle j later

theorem next_waiting {s : App κ ι} {i : Instr κ}
    (member : .exceptInterrupt ∈ next cfg s rest i) : .exceptInterrupt ∈ rest := by
  obtain ⟨more,same,waits⟩ := next_adds cfg s rest i
  rw [same] at member
  refine (List.mem_append.mp member).resolve_left ?_
  intro looping
  cases waits _ looping

end

section
variable {κ ι : Type} [DecidableEq κ]

def Holds (s : App κ ι) (name : κ) : Prop := holding (brackets s.log) name = true

def load (s : App κ ι) : Load κ :=
  ⟨{name | Holds s name},∃ sig, s.handlers sig = .handleSignal,s.inside⟩

/-- Consumers are closed only while they are open, and a worker that holds one says so. -/
structure Accounted (cfg : Config κ) (workers : κ → Worker ι) (log : List (AppEvent κ ι)) :
    Prop where
  bracketed : Bracketed (brackets log)
  marked : ∀ name, holding (brackets log) name = true → (workers name).entered = true
  known : ∀ name, holding (brackets log) name = true → name ∈ cfg.names

def Saved (s : App κ ι) : Prop := ∀ sig,
  (s.handlers sig = .previous ∧ s.installedHandlers sig = none) ∨
    (s.handlers sig = .handleSignal ∧ s.installedHandlers sig = some .previous)

variable {cfg : Config κ} {workers : κ → Worker ι} {log : List (AppEvent κ ι)} {name : κ}
  {w : Worker ι} {event : AppEvent κ ι} {s : App κ ι} {i : Instr κ}

theorem accounted_update (h : Accounted cfg workers log)
    (same : (workers name).entered = true → w.entered = true) :
    Accounted cfg (Function.update workers name w) log := by
  refine ⟨h.bracketed,?_,h.known⟩
  intro other held
  by_cases this : other = name
  · subst other
    rw [Function.update_self]
    exact same (h.marked name held)
  · rw [Function.update_of_ne this]
    exact h.marked other held

theorem accounted_record (h : Accounted cfg workers log) (other : ofConsumers event = none) :
    Accounted cfg workers (log ++ [event]) := by
  have same : brackets (log ++ [event]) = brackets log := by simp [brackets_snoc, other]
  constructor
  · rw [same]
    exact h.bracketed
  · rw [same]
    exact h.marked
  · rw [same]
    exact h.known

theorem holding_entered {other : κ}
    (held : holding (brackets (log ++ [.entered name])) other = true) :
    other = name ∨ holding (brackets log) other = true := by
  rw [brackets_snoc] at held
  by_cases this : other = name
  · exact Or.inl this
  · simp only [ofConsumers, Option.toList_some, holding_snoc, update, if_neg (Ne.symm this)] at held
    exact Or.inr held

theorem holding_exited {other : κ}
    (held : holding (brackets (log ++ [.exited name])) other = true) :
    other ≠ name ∧ holding (brackets log) other = true := by
  rw [brackets_snoc] at held
  by_cases this : other = name
  · simp [ofConsumers, holding_snoc, update, this] at held
  · simp only [ofConsumers, Option.toList_some, holding_snoc, update, if_neg (Ne.symm this)] at held
    exact ⟨this,held⟩

theorem holding_record {other : κ} (silent : ofConsumers event = none)
    (held : holding (brackets (log ++ [event])) other = true) :
    holding (brackets log) other = true := by
  rwa [brackets_snoc, silent, Option.toList_none, List.append_nil] at held

theorem accounted_work {deed : Option (Deed ι)} (h : Accounted cfg workers log)
    (same : (workers name).entered = true → w.entered = true) :
    Accounted cfg (Function.update workers name w)
      (log ++ (deed.map (AppEvent.worker name)).toList) := by
  obtain ⟨bracketed,marked,known⟩ := accounted_update h same
  rw [← brackets_work name deed] at bracketed marked known
  exact ⟨bracketed,marked,known⟩

theorem accounted_entered (h : Accounted cfg workers log) (member : name ∈ cfg.names)
    (mark : w.entered = true) :
    Accounted cfg (Function.update workers name w) (log ++ [.entered name]) := by
  constructor
  · rw [brackets_snoc]
    exact bracketed_snoc h.bracketed (by simp)
  · intro other held
    by_cases this : other = name
    · subst other
      rwa [Function.update_self]
    · rw [Function.update_of_ne this]
      exact h.marked other ((holding_entered held).resolve_left this)
  · intro other held
    rcases holding_entered held with this | before
    · rwa [this]
    · exact h.known other before

theorem accounted_exited (h : Accounted cfg workers log)
    (held : holding (brackets log) name = true) :
    Accounted cfg (Function.update workers name w) (log ++ [.exited name]) := by
  constructor
  · rw [brackets_snoc]
    apply bracketed_snoc h.bracketed
    intro other same
    cases same
    exact held
  · intro other holds
    obtain ⟨this,before⟩ := holding_exited holds
    rw [Function.update_of_ne this]
    exact h.marked other before
  · intro other holds
    exact h.known other (holding_exited holds).2

def ClosesOpen (s : App κ ι) (i : Instr κ) : Prop :=
  ∀ name, i = .exitWorker name → (s.workers name).entered = true → Holds s name

theorem accounted_effect (h : Accounted cfg s.workers s.log) (given : demand cfg i (load s))
    (closes : ClosesOpen s i) :
    Accounted cfg (effect cfg s i).workers (effect cfg s i).log := by
  apply kept_effect (P := Accounted cfg) h
  · intro name same _
    rw [same] at given
    exact accounted_entered h given rfl
  · intro name same entered
    exact accounted_exited h (closes name same entered)
  · intro name infinite _ _
    have noted : Accounted cfg s.workers (s.log ++ [.reached name false]) :=
      accounted_record h rfl
    exact accounted_record (accounted_update noted id) rfl
  · intro name infinite _ _
    exact accounted_record h rfl
  · intro name _
    exact accounted_update h id
  · intro name _ _
    exact accounted_record h rfl
  · intro _
    exact accounted_record h rfl

theorem accounted_halfWay (h : Accounted cfg s.workers s.log) (closes : ClosesOpen s i) :
    Accounted cfg (halfWay s i).workers (halfWay s i).log := by
  apply kept_halfWay (P := Accounted cfg) h
  · intro name same entered
    exact accounted_exited h (closes name same entered)
  · intro name infinite _ _
    exact accounted_update h id

theorem saved_effect (h : Saved s) (given : demand cfg i (load s)) : Saved (effect cfg s i) := by
  cases i with
  | enterWorker name =>
    simp only [effect, App.enterWorker]
    split <;> exact h
  | exitWorker name =>
    simp only [effect, App.exitedWorker]
    split <;> exact h
  | startWorker name infinite =>
    simp only [effect, App.startWorker]
    split <;> exact h
  | warnIfAlive name =>
    simp only [effect]
    split <;> exact h
  | installSignalHandlers =>
    intro sig
    rcases h sig with ⟨handler,saved⟩ | ⟨handler,_⟩
    · by_cases installs : cfg.installs sig = true
      · simp [effect, App.installSignalHandlers, installs, handler]
      · simp [effect, App.installSignalHandlers, installs, handler, saved]
    · exact absurd ⟨sig,handler⟩ given
  | restoreSignalHandlers =>
    intro sig
    rcases h sig with ⟨handler,saved⟩ | ⟨_,saved⟩
    · simp [effect, App.restoreSignalHandlers, handler, saved]
    · simp [effect, App.restoreSignalHandlers, saved]
  | _ => exact h

theorem saved_halfWay (h : Saved s) : Saved (halfWay s i) := by
  cases i with
  | exitWorker name =>
    simp only [halfWay, App.exitedWorker]
    split <;> exact h
  | startWorker name infinite =>
    simp only [halfWay]
    split <;> exact h
  | _ => exact h

theorem below_record {l : Load κ} (h : l.Below (load s)) (silent : ofConsumers event = none) :
    l.Below (load (s.record event)) :=
  ⟨fun _ held => h.1 (holding_record silent held),h.2⟩

theorem load_effect (accounted : Accounted cfg s.workers s.log) (saved : Saved s) :
    (after i (load s)).Below (load (effect cfg s i)) := by
  have same : (load s).Below (load s) := ⟨subset_rfl,id,rfl⟩
  cases i with
  | enterWorker name =>
    simp only [effect, App.enterWorker]
    split
    · exact ⟨Set.subset_insert name _,id,rfl⟩
    · refine ⟨?_,id,rfl⟩
      intro other held
      exact Set.mem_insert_iff.mpr (holding_entered held)
  | exitWorker name =>
    simp only [effect, App.exitedWorker]
    split
    · refine ⟨?_,id,rfl⟩
      intro other held
      obtain ⟨this,before⟩ := holding_exited held
      exact ⟨before,this⟩
    · next unmarked =>
      refine ⟨?_,id,rfl⟩
      intro other held
      refine ⟨held,fun this => unmarked ?_⟩
      rw [← Set.mem_singleton_iff.mp this]
      exact accounted.marked other held
  | startWorker name infinite =>
    simp only [effect, App.startWorker]
    split
    · have noted : (load s).Below (load (s.record (.reached name (s.isAlive name)))) :=
        below_record same rfl
      exact below_record noted rfl
    · exact below_record same rfl
  | warnIfAlive name =>
    simp only [effect]
    split
    · exact below_record same rfl
    · exact same
  | handled => exact below_record same rfl
  | installSignalHandlers => exact ⟨subset_rfl,fun _ => trivial,rfl⟩
  | setOpened value => exact ⟨subset_rfl,id,rfl⟩
  | restoreSignalHandlers =>
    refine ⟨subset_rfl,?_,rfl⟩
    intro installed
    obtain ⟨sig,handler⟩ := installed
    rcases saved sig with ⟨before,none_saved⟩ | ⟨_,kept⟩
    · simp [effect, App.restoreSignalHandlers, none_saved, before] at handler
    · simp [effect, App.restoreSignalHandlers, kept] at handler
  | _ => exact same

def Released (s : App κ ι) : Prop :=
  (∀ name, ¬ Holds s name) ∧ ∀ sig, s.handlers sig = .previous

theorem released_of_settled (h : (load s).Settled) (outside : s.inside = false) : Released s := by
  rcases h with within_ | ⟨none_held,none_installed⟩
  · exact absurd (outside.symm.trans within_) (by simp)
  · refine ⟨none_held,fun sig => ?_⟩
    cases handler : s.handlers sig with
    | previous => rfl
    | handleSignal => exact absurd ⟨sig,handler⟩ none_installed

theorem settled_of_released (h : Released s) : (load s).Settled := by
  refine Or.inr ⟨h.1,?_⟩
  intro installed
  obtain ⟨sig,handler⟩ := installed
  rw [h.2 sig] at handler
  cases handler

/-- The instruction is the exit of the only consumer still held, or none is held, and no
    signal handler is replaced. -/
def HoldsNoMore (s : App κ ι) (i : Instr κ) : Prop :=
  (∀ name, Holds s name → i = .exitWorker name) ∧ ∀ sig, s.handlers sig = .previous

theorem halfWay_handlers : (halfWay s i).handlers = s.handlers :=
  (congrArg App.handlers (own_halfWay s i) :)

theorem halfWay_inside : (halfWay s i).inside = s.inside :=
  (congrArg App.inside (own_halfWay s i) :)

theorem holds_halfWay (held : Holds (halfWay s i) name) : Holds s name := by
  cases i with
  | exitWorker other =>
    simp only [halfWay, App.exitedWorker] at held
    split at held
    · exact (holding_exited held).2
    · exact held
  | startWorker other infinite =>
    simp only [halfWay] at held
    split at held <;> exact held
  | _ => exact held

theorem holds_still (held : Holds s name) (other : i ≠ .exitWorker name) :
    Holds (halfWay s i) name := by
  cases i with
  | exitWorker gone =>
    have this : gone ≠ name := fun same => other (by rw [same])
    simp only [halfWay, App.exitedWorker]
    split
    · simpa [Holds, App.record, App.put, brackets_snoc, ofConsumers, holding_snoc, update, this]
        using held
    · exact held
  | startWorker started infinite =>
    simp only [halfWay]
    split <;> exact held
  | _ => exact held

theorem released_halfWay (accounted : Accounted cfg s.workers s.log) (h : HoldsNoMore s i) :
    Released (halfWay s i) := by
  refine ⟨?_,by rw [halfWay_handlers]; exact h.2⟩
  intro name held
  have before := holds_halfWay held
  have leaving := h.1 name before
  subst i
  simp only [halfWay, App.exitedWorker, if_pos (accounted.marked name before)] at held
  exact absurd rfl (holding_exited held).1

theorem holdsNoMore_of_released (h : Released (halfWay s i)) : HoldsNoMore s i := by
  constructor
  · intro name held
    by_contra other
    exact h.1 name (holds_still held other)
  · rw [← halfWay_handlers (i := i)]
    exact h.2

variable {m : Machine κ ι} {a : AppAction κ ι}

def Proper (m : Machine κ ι) : AppAction κ ι → Bool
  | .call .enter => !m.app.inside
  | .call .exit => m.app.inside
  | _ => true

def within (cfg : Config κ) (m : Machine κ ι) (a : AppAction κ ι) : Machine κ ι :=
  if Proper m a then act cfg m a else m

/-- No consumer is exited that is not entered, and when `__enter__` has failed or
    `__exit__` has ended, all are exited and the signal handlers restored. -/
def AllOrNothing (m : Machine κ ι) : Prop :=
  Bracketed (brackets m.app.log) ∧ (m.code = [] → m.app.inside = false → Released m.app)

/-- No exception comes out of an enter or exit while more is held than the consumer whose
    exit raised; and no consumer is exited whose mark is from an exit that raised before. -/
structure Clean (m : Machine κ ι) (a : AppAction κ ι) : Prop where
  closes : (a = .exec ∨ ∃ e, a = .raise e) → ∀ i rest, m.code = i :: rest → ClosesOpen m.app i
  raises : ∀ e, a = .raise e → m.app.inside = false → ∀ i rest, m.code = i :: rest →
    HoldsNoMore m.app i

structure Holding (cfg : Config κ) (m : Machine κ ι) : Prop where
  balanced : Balanced cfg (load m.app) m.code
  accounted : Accounted cfg m.app.workers m.app.log
  saved : Saved m.app
  waiting : .exceptInterrupt ∈ m.code → ∀ i ∈ m.code, Idle i

theorem holding_unwind {e : Exc} (settled : (load s).Settled)
    (accounted : Accounted cfg s.workers s.log) (saved : Saved s) :
    Holding cfg (m.unwind cfg s e) := by
  refine ⟨?_,accounted,saved,?_⟩
  · simp only [Machine.unwind]
    split
    · exact balanced_interrupted e settled
    · exact settled
  · simp only [Machine.unwind]
    split
    · intro no
      simp [interruptedCode] at no
    · intro no
      cases no

theorem holding_call {op : Call} (h : Holding cfg m) (proper : Proper m (.call op : AppAction κ ι))
    (idle : m.code = []) :
    Holding cfg { app := m.app.begin op, code := callCode cfg op } := by
  have settled : (load m.app).Settled := by
    have balanced := h.balanced
    rw [idle] at balanced
    exact balanced
  cases op with
  | enter =>
    have outside : m.app.inside = false := by simpa [Proper] using proper
    refine ⟨balanced_enterCode ?_,h.accounted,h.saved,fun no => ?_⟩
    · intro installed
      obtain ⟨sig,handler⟩ := installed
      have previous := (released_of_settled settled outside).2 sig
      exact absurd (previous.symm.trans handler) (by simp)
    · simp [callCode, enterCode, lookUp] at no
  | exit =>
    refine ⟨balanced_exitCode h.accounted.known,h.accounted,h.saved,fun no => ?_⟩
    simp [callCode, exitCode, lookUp] at no
  | run infinite =>
    exact ⟨balanced_runCode infinite settled,h.accounted,h.saved,fun _ => idle_runCode infinite⟩
  | consumers => exact ⟨⟨trivial,trivial,settled⟩,h.accounted,h.saved,by simp [callCode, lookUp]⟩
  | stats => exact ⟨⟨trivial,trivial,settled⟩,h.accounted,h.saved,by simp [callCode, lookUp]⟩

theorem holding_exec {rest : List (Instr κ)} (h : Holding cfg m) (code : m.code = i :: rest)
    (closes : ClosesOpen m.app i) :
    Holding cfg { m with app := effect cfg m.app i, code := next cfg m.app rest i } := by
  have balanced := h.balanced
  rw [code] at balanced
  have below : (after i (load m.app)).Below (load (effect cfg m.app i)) :=
    load_effect h.accounted h.saved
  refine ⟨balanced_next (checks_rest monotone_balanced below balanced),
    accounted_effect h.accounted balanced.1 closes,saved_effect h.saved balanced.1,?_⟩
  intro member
  have waiting := h.waiting
  rw [code] at waiting
  have idle := waiting (List.mem_cons_of_mem i (next_waiting member))
  exact idle_next fun j later => idle j (List.mem_cons_of_mem i later)

theorem holding_act (h : Holding cfg m) (proper : Proper m a) (clean : Clean m a) :
    Holding cfg (act cfg m a) := by
  apply kept_act h a
  · intro op same idle
    subst a
    exact holding_call h proper idle
  · intro i rest same code _ _
    exact holding_exec h code (clean.closes (Or.inl same) i rest code)
  · intro i rest e _ code refuses
    have balanced := h.balanced
    rw [code] at balanced
    apply holding_unwind _ h.accounted h.saved
    cases i with
    | requireOpened => exact balanced.1
    | requireWorkers => exact balanced.1
    | raiseAgain e => exact balanced.1
    | _ => cases refuses
  · intro i rest e same code
    apply holding_unwind _ (accounted_halfWay h.accounted _) (saved_halfWay h.saved)
    · cases inside : m.app.inside with
      | true =>
        left
        exact halfWay_inside.trans inside
      | false =>
        have last := clean.raises e same inside i rest code
        exact settled_of_released (released_halfWay h.accounted last)
    · exact clean.closes (Or.inr ⟨e,same⟩) i rest code
  · intro sig _ _
    refine ⟨balanced_handleSignal h.balanced,h.accounted,h.saved,?_⟩
    intro member i inside
    have there : .exceptInterrupt ∈ m.code := by simpa [handleSignalCode, lookUp] using member
    rcases List.mem_append.mp inside with handler | code
    · exact idle_handleSignal i handler
    · exact h.waiting there i code
  · intro name x w deed _ done
    have mark : (m.app.workers name).entered = true → w.entered = true := by
      cases work_works done <;> exact id
    have same : load (m.app.work name w deed) = load m.app := by
      simp only [load, Holds, App.work, App.put, brackets_work]
    refine ⟨?_,accounted_work h.accounted mark,h.saved,h.waiting⟩
    rw [same]
    exact h.balanced
  · intro d _
    exact ⟨h.balanced,h.accounted,h.saved,h.waiting⟩

theorem allOrNothing_of_holding (h : Holding cfg m) : AllOrNothing m := by
  refine ⟨h.accounted.bracketed,fun idle outside => ?_⟩
  have balanced := h.balanced
  rw [idle] at balanced
  exact released_of_settled balanced outside

theorem exit_logged {rest : List (Instr κ)} (turn : a = .exec ∨ ∃ e, a = .raise e)
    (code : m.code = .exitWorker name :: rest) (entered : (m.app.workers name).entered = true) :
    (act cfg m a).app.log = m.app.log ++ [.exited name] := by
  rcases turn with rfl | ⟨e,rfl⟩
  · simp [act, possible, code, ready, Machine.exec, refusal, effect, App.exitedWorker, entered,
      App.record, App.put]
  · simp [act, possible, code, Machine.unwind, halfWay, App.exitedWorker, entered, App.record,
      App.put]

theorem clean_of_act (h : Holding cfg m) (safe : AllOrNothing (act cfg m a)) : Clean m a := by
  constructor
  · intro turn i rest code name same entered
    subst i
    have bracketed := safe.1
    rw [exit_logged turn code entered, brackets_snoc] at bracketed
    exact bracketed _ name [] rfl
  · intro e same outside i rest code
    subst a
    have unwound : act cfg m (.raise e) = m.unwind cfg (halfWay m.app i) e := by
      simp [act, possible, code]
    rw [unwound] at safe
    simp only [Machine.unwind] at safe
    split at safe
    · next caught =>
      have there : .exceptInterrupt ∈ m.code := by
        simp only [Bool.and_eq_true, List.contains_iff_mem] at caught
        exact caught.1.1
      have released := released_of_settled (settled_of_idle (h.waiting there) h.balanced) outside
      exact ⟨fun name held => absurd held (released.1 name),released.2⟩
    · exact holdsNoMore_of_released (safe.2 rfl (halfWay_inside.trans outside))

/-- The app acquires and releases all or nothing if and only if every exception that comes
    out of its enter or exit comes while at most the consumer it comes from is held, and
    no signal handler is replaced. -/
theorem all_or_nothing_iff (cfg : Config κ) (acts : List (AppAction κ ι)) :
    (∀ m ∈ visited (within cfg) {} acts, AllOrNothing m) ↔
      EveryStep (within cfg) (fun m a => Proper m a = true → Clean m a) {} acts := by
  apply safe_iff_clean (Holding cfg)
  · intro m a h clean
    unfold within
    split
    · next proper => exact holding_act h proper (clean proper)
    · exact h
  · exact fun m h => allOrNothing_of_holding h
  · intro m a h safe proper
    rw [within, if_pos proper] at safe
    exact clean_of_act h safe
  · refine ⟨?_,?_,fun sig => Or.inl ⟨rfl,rfl⟩,fun no => by cases no⟩
    · refine Or.inr ⟨fun name no => (by cases no),?_⟩
      intro installed
      obtain ⟨sig,no⟩ := installed
      cases no
    · exact ⟨bracketed_nil,fun name no => (by cases no),fun name no => by cases no⟩

end

def twoConsumers : Config String where
  names := ["orders","payments"]
  distinct := by decide
  sinks _ := []
  nonneg := default_timeout_nonneg

def secondFails : List (AppAction String Int) :=
  [.call .enter,.exec,.exec,.exec,.raise (.raised .runtimeError "payments")]

theorem first_stays_entered : ¬ ∀ (cfg : Config String) (acts : List (AppAction String Int)),
    ∀ m ∈ visited (within cfg) {} acts, AllOrNothing m := by
  intro all
  have right := all twoConsumers secondFails _ (foldl_visited _ (by simp [secondFails]))
  have ended : (secondFails.foldl (within twoConsumers) {}).code = [] := by decide +kernel
  have outside : (secondFails.foldl (within twoConsumers) {}).app.inside = false := by
    decide +kernel
  have held : Holds (secondFails.foldl (within twoConsumers) {}).app "orders" := by
    unfold Holds
    decide +kernel
  exact (right.2 ended outside).1 "orders" held

end CdcAppResources
