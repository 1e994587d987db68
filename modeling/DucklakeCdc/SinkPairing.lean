import DucklakeCdc.Histories
import DucklakeCdc.Reopening
import Mathlib.Data.List.Nodup

/-!
Opens and closes of the sinks. The error path of `__enter__` and `__exit__` close every
sink of the list, opened or not; the calls stay paired as long as they find either all
sinks open or no sinks at all.
-/
namespace CdcSinkPairing
open Programs CdcRetry CdcLifecycle CdcReopening Histories Brackets
variable {κ δ : Type} [DecidableEq κ]

/-- A sink is closed only when its `open()` has returned since its previous `close()`,
    and none is left open by a consumer that is not opened. -/
def Paired (s : Lifecycle κ δ) : Prop :=
  Bracketed s.sinkLog ∧ (s.opened = false → Settled s.sinkLog)

/-- `open()` fails before the client is there, or succeeds with all the sinks. -/
def CleanOpen (c : Consumer κ) (s : Lifecycle κ δ) (r : Replies κ δ) : Prop :=
  s.client = none ∧ (c.wiring ≠ .connection ∧ r.derive ≠ none ∨ r.prewarm ≠ none) ∨
    Accepts c r s.db ∧ ∀ connection, s.client = some connection → connection ∉ s.closed

/-- `close()` finds the consumer opened, and no sink stops the loop before the last. -/
def CleanClose (c : Consumer κ) (s : Lifecycle κ δ) (r : Replies κ δ) : Prop :=
  s.opened = true ∧ ∀ sink ∈ c.sinks.tail, interrupts (r.closeSink sink) = false

def Clean (c : Consumer κ) (s : Lifecycle κ δ) : Call κ δ → Prop
  | .opens r => c.sinks = [] ∨ CleanOpen c s r
  | .closes r => c.sinks = [] ∨ CleanClose c s r

structure Inv (c : Consumer κ) (s : Lifecycle κ δ) : Prop where
  bounded : Bounded s
  silent : c.sinks = [] → s.sinkLog = []
  bracketed : Bracketed s.sinkLog
  opened : s.opened = true → ∀ sink, holding s.sinkLog sink = decide (sink ∈ c.sinks)
  idle : s.opened = false → Settled s.sinkLog

variable {c : Consumer κ} {r : Replies κ δ} {s : Lifecycle κ δ}

theorem paired_of_inv (h : Inv c s) : Paired s := ⟨h.bracketed,h.idle⟩

theorem inv_same {t : Lifecycle κ δ} (h : Inv c s) (bounded : Bounded t)
    (log : t.sinkLog = s.sinkLog) (opened : t.opened = s.opened) : Inv c t := by
  constructor
  · exact bounded
  · rw [log]
    exact h.silent
  · rw [log]
    exact h.bracketed
  · rw [log, opened]
    exact h.opened
  · rw [log, opened]
    exact h.idle

theorem inv_no_sinks {t : Lifecycle κ δ} (none_given : c.sinks = []) (bounded : Bounded t)
    (log : t.sinkLog = []) : Inv c t := by
  constructor
  · exact bounded
  · intro _
    exact log
  · rw [log]
    exact bracketed_nil
  · intro _ sink
    rw [log]
    simp [none_given, holding]
  · intro _ sink
    rw [log]
    rfl

theorem inv_opened {t : Lifecycle κ δ} (h : Inv c s) (bounded : Bounded t)
    (log : t.sinkLog = s.sinkLog ++ c.sinks.map .opened) (opened : t.opened = true) : Inv c t := by
  have before : ∀ sink, sink ∉ c.sinks → holding s.sinkLog sink = false := by
    intro sink other
    cases was : s.opened with
    | true => rw [h.opened was, decide_eq_false other]
    | false => exact h.idle was sink
  constructor
  · exact bounded
  · intro no_sinks
    simp [log, no_sinks, h.silent no_sinks]
  · rw [log]
    exact bracketed_opens h.bracketed c.sinks
  · intro _ sink
    rw [log, holding_opens]
    by_cases member : sink ∈ c.sinks
    · simp [member]
    · simp [member, before sink member]
  · intro idle
    rw [opened] at idle
    contradiction

theorem inv_closed {t : Lifecycle κ δ} (distinct : c.sinks.Nodup) (h : Inv c s)
    (was : s.opened = true) (bounded : Bounded t)
    (log : t.sinkLog = s.sinkLog ++ c.sinks.reverse.map .closed) (idle : t.opened = false) :
    Inv c t := by
  constructor
  · exact bounded
  · intro no_sinks
    simp [log, no_sinks, h.silent no_sinks]
  · rw [log]
    apply bracketed_closes h.bracketed
    · exact List.nodup_reverse.mpr distinct
    · intro sink member
      rw [h.opened was]
      exact decide_eq_true (List.mem_reverse.mp member)
  · intro opened
    rw [idle] at opened
    contradiction
  · intro _ sink
    rw [log, holding_closes, h.opened was]
    by_cases member : sink ∈ c.sinks
    · simp [member]
    · simp [member]

theorem ends_silent (no_sinks : c.sinks = []) (h : Inv c s) (call : Call κ δ) :
    Ends (call.run c) s (fun _ t => t.sinkLog = []) (fun _ t => t.sinkLog = []) := by
  have silent := h.silent no_sinks
  have guarded : ∀ connection (u : Lifecycle κ δ), u.sinkLog = [] → ∀ r : Replies κ δ,
      Ends (guarded c r connection) u (fun _ t => t.sinkLog = []) (fun _ t => t.sinkLog = []) := by
    intro connection u log r
    apply ends_guarded
    · intro db _
      simp [log, no_sinks]
    · intro e db events _ nothing _
      simp [swept, released, logged, log, no_sinks, nothing no_sinks]
    · intro e db events _ nothing _
      simp [cutOff, logged, log, no_sinks, nothing no_sinks, reached]
  cases call with
  | closes r =>
    apply ends_exit
    · intro _
      simp [swept, released, logged, silent, no_sinks]
    · intro e _
      simp [cutOff, logged, silent, no_sinks, reached]
  | opens r =>
    cases built : s.client with
    | none =>
      have same : (drawn c s).2.sinkLog = s.sinkLog := by
        unfold drawn
        split <;> rfl
      apply ends_enter_first built
      · intro e _ _
        exact silent
      · intro e _ _
        exact same.trans silent
      · intro _ _
        apply guarded
        exact same.trans silent
    | some connection =>
      apply ends_enter_again built
      apply guarded
      exact silent

theorem inv_open (h : Inv c s) (clean : CleanOpen c s r) : Inv c (step c s (.opens r)) := by
  have bounded : Bounded (step c s (.opens r)) := bounded_step h.bounded _
  have kept : Ends (enter c r) s (fun _ t => Bounded t → Inv c t) (fun _ t => Bounded t → Inv c t) := by
    cases built : s.client with
    | none =>
      have same : (drawn c s).2.sinkLog = s.sinkLog ∧ (drawn c s).2.opened = s.opened := by
        unfold drawn
        split <;> exact ⟨rfl,rfl⟩
      apply ends_enter_first built
      · intro e _ _ bounded
        exact inv_same h bounded rfl rfl
      · intro e _ _ bounded
        exact inv_same h bounded same.1 same.2
      · intro warm drew
        have success : Succeeds c r (drawn c s).1
            { (drawn c s).2 with client := some (drawn c s).1 } := by
          refine ⟨drawn_live h.bounded,?_⟩
          change Accepts c r (drawn c s).2.db
          rw [drawn_db]
          rcases clean with ⟨_,⟨not_given,refused⟩ | cold⟩ | ⟨accepts,_⟩
          · exact absurd (drew.resolve_left not_given) refused
          · exact absurd warm cold
          · exact accepts
        apply ends_guarded
        · intro db _ bounded
          apply inv_opened h bounded _ rfl
          exact congrArg (· ++ c.sinks.map .opened) same.1
        · intro e db events failed _ _
          exact absurd success failed
        · intro e db events failed _ _
          exact absurd success failed
    | some connection =>
      have success : Succeeds c r connection { s with connection := some connection } := by
        rcases clean with ⟨unbuilt,_⟩ | ⟨accepts,live⟩
        · rw [built] at unbuilt
          cases unbuilt
        · exact ⟨live connection built,accepts⟩
      apply ends_enter_again built
      apply ends_guarded
      · intro db _ bounded
        exact inv_opened h bounded rfl rfl
      · intro e db events failed _ _
        exact absurd success failed
      · intro e db events failed _ _
        exact absurd success failed
  exact ends_final _ kept bounded

theorem inv_close (distinct : c.sinks.Nodup) (h : Inv c s) (clean : CleanClose c s r) :
    Inv c (step c s (.closes r)) := by
  have bounded : Bounded (step c s (.closes r)) := bounded_step h.bounded _
  obtain ⟨opened,quiet⟩ := clean
  have kept : Ends (exit c r) s (fun _ t => Bounded t → Inv c t) (fun _ t => Bounded t → Inv c t) := by
    apply ends_exit
    · intro _
      have closed : Bounded (swept c { s with opened := false }) →
          Inv c (swept c { s with opened := false }) :=
        fun bounded => inv_closed distinct h opened bounded rfl rfl
      exact ⟨closed,fun _ => closed⟩
    · intro e _ bounded
      apply inv_closed distinct h opened bounded _ rfl
      simp only [cutOff, logged, reached_all quiet]
  exact ends_final _ kept bounded

theorem inv_step (distinct : c.sinks.Nodup) (h : Inv c s) (call : Call κ δ)
    (clean : Clean c s call) : Inv c (step c s call) := by
  have no_sinks : c.sinks = [] → Inv c (step c s call) := by
    intro none_given
    apply inv_no_sinks none_given (bounded_step h.bounded call)
    exact ends_final (fun t : Lifecycle κ δ => t.sinkLog = []) (ends_silent none_given h call)
  cases call with
  | opens r =>
    rcases clean with none_given | clean
    · exact no_sinks none_given
    · exact inv_open h clean
  | closes r =>
    rcases clean with none_given | clean
    · exact no_sinks none_given
    · exact inv_close distinct h clean

theorem inv_fresh (db : δ) : Inv c (c.fresh db) := by
  constructor
  · exact bounded_after c db []
  · intro _
    rfl
  · exact bracketed_nil
  · intro opened
    cases opened
  · intro _ sink
    rfl

/-- In a run of clean calls, the opens and closes of every sink are paired after each. -/
theorem sinks_paired_of_clean (c : Consumer κ) (distinct : c.sinks.Nodup) (db : δ)
    (calls : List (Call κ δ)) (clean : EveryStep (step c) (Clean c) (c.fresh db) calls) :
    ∀ t ∈ visited (step c) (c.fresh db) calls, Paired t := by
  refine safe_of_clean (Inv c) ?_ ?_ (inv_fresh db) clean
  · intro s call h clean
    exact inv_step distinct h call clean
  · intro s h
    exact paired_of_inv h

def twoSinks : Consumer Nat := { sinks := [0,1] }

def lastRaises : Replies Nat Unit where
  closeSink sink := if sink = 0 then some (.raised .keyboardInterrupt "") else none

theorem sinks_paired_last_raises :
    Paired (step twoSinks (step twoSinks (twoSinks.fresh ()) (.opens {})) (.closes lastRaises)) := by
  have clean : EveryStep (step twoSinks) (Clean twoSinks) (twoSinks.fresh ())
      [.opens {},.closes lastRaises] := by
    refine ⟨Or.inr (Or.inr ⟨⟨by decide +kernel,by decide⟩,?_⟩),?_,trivial⟩
    · intro connection no
      cases no
    · exact Or.inr ⟨by decide +kernel,by decide⟩
  apply sinks_paired_of_clean twoSinks (by decide) () [.opens {},.closes lastRaises] clean
  exact List.mem_cons_of_mem _ List.mem_cons_self

def secondRefuses : Replies Nat Unit where
  openSink sink := if sink = 1 then some (.raised .otherException "no route to host") else none

/-- The second sink does not open: it is closed all the same, and the first one twice. -/
theorem failed_open_closes_unopened :
    (step twoSinks (twoSinks.fresh ()) (.opens secondRefuses)).sinkLog =
        [.opened 0,.closed 0,.closed 1,.closed 0] ∧
      ¬ Paired (step twoSinks (twoSinks.fresh ()) (.opens secondRefuses)) := by
  have log : (step twoSinks (twoSinks.fresh ()) (.opens secondRefuses)).sinkLog =
      [.opened 0,.closed 0,.closed 1,.closed 0] := by decide +kernel
  refine ⟨log,?_⟩
  intro facts
  obtain ⟨bracketed,_⟩ := facts
  have held := bracketed [.opened 0,.closed 0] 1 [.closed 0] log
  contradiction

end CdcSinkPairing
