import DucklakeCdc.BatchLoop
import DucklakeCdc.Histories
import Mathlib.Data.List.Induction
import Mathlib.Data.List.TakeWhile

/-!
What a sink-driven consumer may do, as a protocol over its trace: a batch goes to the
sinks in order, a required sink that raises ends the execution, and only a batch that
passed every sink is committed. Any trace that follows the protocol acknowledges
before it commits; `SinkDelivery` shows that `run` follows it.
-/
namespace DeliveryProtocol
open Histories CdcBatch CdcRetry CdcLoop
variable {ι : Type}

/-- The sink lets the delivery go on: it returned, or is optional and raised no more
    than an `Exception`. -/
def Passes (sink : Sink) (raised : Option Exc) : Prop :=
  raised = none ∨ (sink.required = false ∧ ∃ e, raised = some e ∧ e.isException = true)

inductive Phase (ι : Type) where
  | ended
  | ready
  | delivering (batch : Batch ι) (next : Nat)
  | settled (batch : Batch ι)

def Phase.Idle : Phase ι → Prop
  | .ready | .settled _ => True
  | _ => False

/-- Where an execution ends that nothing cuts off: between deliveries, after a refusal, or
    with a batch that every sink has passed and that was not committed. -/
def Phase.Over (sinks : List Sink) (p : Phase ι) : Prop :=
  p.Idle ∨ p = .ended ∨ ∃ batch, p = .delivering batch sinks.length

def Phase.Awaits (p : Phase ι) (batch : Batch ι) (i : Nat) : Prop :=
  (p = .ready ∧ i = 0) ∨ p = .delivering batch i

inductive Follows (sinks : List Sink) : Phase ι → Event ι → Phase ι → Prop where
  | started {p : Phase ι} : Follows sinks p .started .ready
  | landed {p : Phase ι} {snapshot : Int} {items : List ι} :
      Follows sinks p (.landed snapshot items) p
  | listened {p : Phase ι} {rows : List (Row ι)} (idle : p.Idle) :
      Follows sinks p (.listened rows) .ready
  | passed {p : Phase ι} {i : Nat} {b : Batch ι} {raised : Option Exc} {sink : Sink}
      (next : p.Awaits b i) (at_ : sinks[i]? = some sink) (pass : Passes sink raised) :
      Follows sinks p (.wrote i b raised) (.delivering b (i + 1))
  | refused {p : Phase ι} {i : Nat} {b : Batch ι} {raised : Option Exc} {sink : Sink}
      (next : p.Awaits b i) (at_ : sinks[i]? = some sink) (fail : ¬ Passes sink raised) :
      Follows sinks p (.wrote i b raised) .ended
  | retried {b : Batch ι} {moved : Bool} {e : Exc} :
      Follows sinks (.delivering b sinks.length) (.commitCalled b moved (some e))
        (.delivering b sinks.length)
  | committed {b : Batch ι} {moved : Bool} :
      Follows sinks (.delivering b sinks.length) (.commitCalled b moved none) (.settled b)

def isStarted : Event ι → Bool
  | .started => true
  | _ => false

def isLanded : Event ι → Bool
  | .landed _ _ => true
  | _ => false

def IsCommit : Event ι → Prop
  | .commitCalled _ _ _ => True
  | _ => False

def sinceStart (trace : List (Event ι)) : List (Event ι) :=
  (trace.reverse.takeWhile fun event => !isStarted event).reverse

/-- Every required sink's `write` returned for this batch in this execution. -/
def Accepted (sinks : List Sink) (trace : List (Event ι)) (b : Batch ι) : Prop :=
  ∀ i sink, sinks[i]? = some sink → sink.required = true →
    .wrote i b none ∈ sinceStart trace

theorem sinceStart_snoc (trace : List (Event ι)) (event : Event ι) :
    sinceStart (trace ++ [event]) =
      if isStarted event then [] else sinceStart trace ++ [event] := by
  simp only [sinceStart, List.reverse_append, List.reverse_singleton, List.singleton_append,
    List.takeWhile_cons]
  cases isStarted event <;> simp

theorem required_passes {sink : Sink} {raised : Option Exc} (required : sink.required = true)
    (pass : Passes sink raised) : raised = none := by
  rcases pass with returned | ⟨optional,_⟩
  · exact returned
  · rw [required] at optional
    contradiction

variable {sinks : List Sink} {p q : Phase ι} {trace : List (Event ι)}

def PassedBelow (sinks : List Sink) (trace : List (Event ι)) (b : Batch ι) (n : Nat) : Prop :=
  ∀ i sink, i < n → sinks[i]? = some sink → sink.required = true →
    .wrote i b none ∈ sinceStart trace

def PhasePassed (sinks : List Sink) (trace : List (Event ι)) : Phase ι → Prop
  | .delivering b n => PassedBelow sinks trace b n
  | .settled b => PassedBelow sinks trace b sinks.length
  | _ => True

theorem passedBelow_snoc {b : Batch ι} {n : Nat} {event : Event ι}
    (running : isStarted event = false) (h : PassedBelow sinks trace b n) :
    PassedBelow sinks (trace ++ [event]) b n := by
  intro i sink below at_ required
  rw [sinceStart_snoc, running]
  exact List.mem_append_left _ (h i sink below at_ required)

theorem phase_passed_snoc {event : Event ι} (step : Follows sinks p event q)
    (h : PhasePassed sinks trace p) : PhasePassed sinks (trace ++ [event]) q := by
  cases step with
  | started => trivial
  | listened idle => trivial
  | refused next at_ fail => trivial
  | landed =>
    cases p with
    | ended => trivial
    | ready => trivial
    | delivering b n => exact passedBelow_snoc rfl h
    | settled b => exact passedBelow_snoc rfl h
  | retried => exact passedBelow_snoc rfl h
  | committed => exact passedBelow_snoc rfl h
  | @passed _ i b raised sink next at_ pass =>
    have before : PassedBelow sinks trace b i := by
      rcases next with ⟨_,rfl⟩ | rfl
      · exact fun j _ below => absurd below (Nat.not_lt_zero j)
      · exact h
    intro j other below otherAt required
    by_cases same : j = i
    · subst j
      obtain rfl : sink = other := Option.some.inj (at_.symm.trans otherAt)
      rw [sinceStart_snoc, required_passes required pass]
      exact List.mem_append_right _ (List.mem_singleton.mpr rfl)
    · exact passedBelow_snoc rfl before j other (by omega) otherAt required

theorem phase_passed (path : Path (Follows sinks) .ended trace p) : PhasePassed sinks trace p := by
  induction trace using List.reverseRecOn generalizing p with
  | nil =>
    cases path
    trivial
  | append_singleton trace event ih =>
    obtain ⟨q,before,last⟩ := path_split path
    cases last with
    | cons first rest =>
      cases rest
      exact phase_passed_snoc first (ih before)

theorem passedBelow_all {b : Batch ι} (h : PassedBelow sinks trace b sinks.length) :
    Accepted sinks trace b := by
  intro i sink at_
  have below : i < sinks.length := by
    by_contra outside
    rw [List.getElem?_eq_none (Nat.le_of_not_lt outside)] at at_
    contradiction
  exact h i sink below at_

/-- A commit comes after every required sink has accepted the batch. -/
theorem commit_accepted {before after : List (Event ι)} {b : Batch ι} {moved : Bool}
    {raised : Option Exc}
    (path : Path (Follows sinks) .ended (before ++ .commitCalled b moved raised :: after) p) :
    Accepted sinks before b := by
  obtain ⟨q,_,left,step,_⟩ := path_at path
  have passed := phase_passed left
  cases step with
  | retried => exact passedBelow_all passed
  | committed => exact passedBelow_all passed

theorem over_until_start {after : List (Event ι)} (path : Path (Follows sinks) .ended after p) :
    ∀ event ∈ after.takeWhile (fun event => !isStarted event), ¬ IsCommit event := by
  induction after with
  | nil => simp
  | cons event after ih =>
    cases path with
    | cons first rest =>
      cases first with
      | started => simp [isStarted]
      | landed =>
        intro other member
        rw [List.takeWhile_cons_of_pos (by rfl)] at member
        rcases List.mem_cons.mp member with same | later
        · subst other
          exact id
        · exact ih rest other later
      | listened idle => exact idle.elim
      | passed next => rcases next with ⟨no,_⟩ | no <;> contradiction
      | refused next => rcases next with ⟨no,_⟩ | no <;> contradiction

theorem refused_not_committed {before after : List (Event ι)} {i : Nat} {b : Batch ι} {e : Exc}
    {sink : Sink} (at_ : sinks[i]? = some sink) (required : sink.required = true)
    (path : Path (Follows sinks) .ended (before ++ .wrote i b (some e) :: after) p) :
    ∀ event ∈ after.takeWhile (fun event => !isStarted event), ¬ IsCommit event := by
  obtain ⟨q,q',_,step,right⟩ := path_at path
  cases step with
  | @passed _ _ _ _ other next otherAt pass =>
    obtain rfl : sink = other := Option.some.inj (at_.symm.trans otherAt)
    exact absurd (required_passes required pass) (by simp)
  | refused => exact over_until_start right

/-- The step that must follow once `next` sinks have passed the batch: the write to the
    next sink, a commit of the batch when there is none, or a new execution. -/
def GoesOn (sinks : List Sink) (b : Batch ι) (next : Nat) : Event ι → Prop
  | .started => True
  | .wrote i b' _ => i = next ∧ b' = b ∧ next < sinks.length
  | .commitCalled b' _ _ => b' = b ∧ next = sinks.length
  | _ => False

theorem delivering_goes_on {after : List (Event ι)} {b : Batch ι} {n : Nat}
    (path : Path (Follows sinks) (.delivering b n) after p) :
    ∀ event, (after.filter fun event => !isLanded event).head? = some event →
      GoesOn sinks b n event := by
  induction after with
  | nil => simp
  | cons event after ih =>
    cases path with
    | cons first rest =>
      cases first with
      | landed =>
        rw [List.filter_cons_of_neg (by simp [isLanded])]
        exact ih rest
      | started => simp [isLanded, GoesOn]
      | listened idle => exact idle.elim
      | @passed _ i b' _ _ next at_ =>
        obtain ⟨inside,_⟩ := List.getElem?_eq_some_iff.mp at_
        rcases next with ⟨no,_⟩ | same
        · contradiction
        · cases same
          simpa [isLanded, GoesOn] using inside
      | @refused _ i b' _ _ next at_ =>
        obtain ⟨inside,_⟩ := List.getElem?_eq_some_iff.mp at_
        rcases next with ⟨no,_⟩ | same
        · contradiction
        · cases same
          simpa [isLanded, GoesOn] using inside
      | retried => simp [isLanded, GoesOn]
      | committed => simp [isLanded, GoesOn]

theorem optional_goes_on {before after : List (Event ι)} {i : Nat} {b : Batch ι} {e : Exc}
    {sink : Sink} (at_ : sinks[i]? = some sink) (optional : sink.required = false)
    (exception : e.isException = true)
    (path : Path (Follows sinks) .ended (before ++ .wrote i b (some e) :: after) p) :
    ∀ event, (after.filter fun event => !isLanded event).head? = some event →
      GoesOn sinks b (i + 1) event := by
  obtain ⟨q,q',_,step,right⟩ := path_at path
  cases step with
  | passed => exact delivering_goes_on right
  | @refused _ _ _ _ other next otherAt fail =>
    obtain rfl : sink = other := Option.some.inj (at_.symm.trans otherAt)
    exact absurd (Or.inr ⟨optional,e,rfl,exception⟩) fail

theorem path_sinceStart {trace : List (Event ι)} (path : Path (Follows sinks) .ended trace p) :
    ∃ q : Phase ι, (q = .ready ∨ q = .ended) ∧ Path (Follows sinks) q (sinceStart trace) p := by
  induction trace using List.reverseRecOn generalizing p with
  | nil => exact ⟨.ended,Or.inr rfl,path⟩
  | append_singleton trace event ih =>
    obtain ⟨t,before,last⟩ := path_split path
    cases last with
    | cons first rest =>
      cases rest
      rw [sinceStart_snoc]
      obtain ⟨q,which,here⟩ := ih before
      by_cases starts : isStarted event = true
      · rw [if_pos starts]
        cases first <;> simp only [isStarted, Bool.false_eq_true] at starts
        exact ⟨.ready,Or.inl rfl,.nil _⟩
      · rw [if_neg starts]
        exact ⟨q,which,path_snoc here first⟩

theorem sinceStart_running {trace : List (Event ι)} : .started ∉ sinceStart trace := by
  intro member
  have kept := List.mem_takeWhile_imp (List.mem_reverse.mp member)
  simp [isStarted] at kept

theorem sinceStart_suffix (trace : List (Event ι)) : sinceStart trace <:+ trace := by
  rw [← List.reverse_prefix, sinceStart, List.reverse_reverse]
  exact List.takeWhile_prefix _

def steps (trace : List (Event ι)) : List (Event ι) := trace.filter fun event => !isLanded event

/-- The last step was a call of the commit of `b`. -/
def Asked (b : Batch ι) (trace : List (Event ι)) : Prop :=
  ∃ moved raised, (steps trace).getLast? = some (.commitCalled b moved raised)

/-- What comes of a batch that the sinks before `i` have passed, where nothing cuts the
    execution off: each of the others gets it in turn, up to one that refuses it, and if none
    does its commit is called, as long as the retry policy `calls` anything. -/
def Onward (calls : Prop) (b : Batch ι) : Nat → List Sink → List (Event ι) → Prop
  | _, [], events => calls → ∃ moved raised, events.head? = some (.commitCalled b moved raised)
  | i, sink :: rest, events => ∃ raised, events.head? = some (.wrote i b raised) ∧
      (Passes sink raised → Onward calls b (i + 1) rest events.tail)

/-- In the execution under way no optional sink's `Exception` holds its batch up. -/
def Unhindered (calls : Prop) (sinks : List Sink) (trace : List (Event ι)) : Prop :=
  ∀ before i b e after sink, sinceStart trace = before ++ .wrote i b (some e) :: after →
    sinks[i]? = some sink → sink.required = false → e.isException = true →
    Onward calls b (i + 1) (sinks.drop (i + 1)) (steps after)

section
variable {calls : Prop}

theorem asked_snoc {b : Batch ι} {moved : Bool} {raised : Option Exc} :
    Asked b (trace ++ [.commitCalled b moved raised]) := by
  refine ⟨moved,raised,?_⟩
  rw [steps, List.filter_append]
  exact List.getLast?_concat

theorem asked_after {b b' : Batch ι} {i : Nat} {raised : Option Exc}
    {after : List (Event ι)} (before : List (Event ι))
    (h : Asked b (before ++ .wrote i b' raised :: after)) :
    Asked b after := by
  obtain ⟨moved,answer,last⟩ := h
  rw [steps, List.filter_append, List.filter_cons_of_pos (by simp [isLanded]),
    List.getLast?_append_of_ne_nil _ (List.cons_ne_nil _ _), List.getLast?_cons] at last
  refine ⟨moved,answer,?_⟩
  rw [steps]
  cases rest : (after.filter fun event => !isLanded event).getLast? with
  | none => simp [rest] at last
  | some event => simpa [rest] using last

theorem onward_of_path {b : Batch ι} {i : Nat} {after : List (Event ι)}
    (path : Path (Follows sinks) (.delivering b i) after p) (running : .started ∉ after)
    (halted : p.Over sinks)
    (asked : ∀ b', p = .delivering b' sinks.length → calls → Asked b' after) :
    Onward calls b i (sinks.drop i) (steps after) := by
  induction after generalizing i with
  | nil =>
    cases path
    rcases halted with idle | ended | ⟨b',same⟩
    · exact idle.elim
    · contradiction
    · cases same
      rw [List.drop_length]
      intro tried
      obtain ⟨_,_,last⟩ := asked b rfl tried
      contradiction
  | cons event after ih =>
    cases path with
    | cons first rest =>
      have later : .started ∉ after := fun member => running (List.mem_cons_of_mem _ member)
      cases first with
      | started => exact absurd List.mem_cons_self running
      | landed => exact ih rest later asked
      | listened idle => exact idle.elim
      | @passed _ j b' raised sink next at_ pass =>
        obtain ⟨inside,_⟩ := List.getElem?_eq_some_iff.mp at_
        rcases next with ⟨no,_⟩ | same
        · contradiction
        · cases same
          rw [List.drop_eq_getElem?_toList_append, at_]
          exact ⟨raised,rfl,fun _ => ih rest later fun b' is_ tried =>
            asked_after [] (asked b' is_ tried)⟩
      | @refused _ j b' raised sink next at_ fail =>
        rcases next with ⟨no,_⟩ | same
        · contradiction
        · cases same
          rw [List.drop_eq_getElem?_toList_append, at_]
          exact ⟨raised,rfl,fun pass => absurd pass fail⟩
      | retried =>
        rw [List.drop_length]
        exact fun _ => ⟨_,_,rfl⟩
      | committed =>
        rw [List.drop_length]
        exact fun _ => ⟨_,_,rfl⟩

/-- Where an execution ends that nothing cuts off, no optional sink has held its batch up. -/
theorem unhindered_of_path (path : Path (Follows sinks) .ended trace p) (halted : p.Over sinks)
    (asked : ∀ b, p = .delivering b sinks.length → calls → Asked b trace) :
    Unhindered calls sinks trace := by
  intro before i b e after sink here at_ optional exception
  obtain ⟨earlier,whole⟩ := sinceStart_suffix trace
  have own : trace = (earlier ++ before) ++ .wrote i b (some e) :: after := by
    rw [← whole, here, List.append_assoc]
  have running : .started ∉ after := by
    intro member
    have inside : .started ∈ sinceStart trace := by simp [here, member]
    exact sinceStart_running inside
  rw [own] at path asked
  obtain ⟨q,q',_,step,right⟩ := path_at path
  cases step with
  | passed => exact onward_of_path right running halted fun b' is_ tried =>
      asked_after _ (asked b' is_ tried)
  | @refused _ _ _ _ other next otherAt fail =>
    obtain rfl : sink = other := Option.some.inj (at_.symm.trans otherAt)
    exact absurd (Or.inr ⟨optional,e,rfl,exception⟩) fail

end

end DeliveryProtocol
