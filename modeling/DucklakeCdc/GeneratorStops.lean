import DucklakeCdc.BatchesGenerator
import DucklakeCdc.Histories

/-!
When a generator of `batches` returns before its caller is done with it: because the stop
event is set, or because nothing has come for too long.
-/
namespace CdcGenerator
open Histories CdcBatch CdcRetry CdcWindow CdcLoop
variable {ι : Type}

/-- The stop event was set when this was done, and known to be by a look or by the
    moment a listen returned. -/
def seesStop : Deed ι → Bool
  | .checked stop => stop
  | .listened _ stop => stop
  | _ => false

def carriesOn : Deed ι → Bool
  | .listens _ => true
  | .yielded _ => true
  | _ => false

/-- Once the event is set the generator hands out nothing that came later, starts no
    further listen, and a look that sees the event is its last deed. -/
def Abandons (r : Run ι) : Prop :=
  r.log.Pairwise (fun later earlier => carriesOn later = true → seesStop earlier = false) ∧
    (.checked true ∈ r.log → r.status = .returned .stopped)

/-- The event is not set while a listen that brings rows is under way. -/
def UnhurriedListen (o : BatchOptions) (r : Run ι) : Move ι → Prop
  | .next _ _ => True
  | .turn t => ∀ g rows, r.status = .polling g → (looked o t r).stopSeen o = false →
      t.outcome = .ok rows → (listening o t g r).stopSeen o = true → rows = []

def Clear (log : List (Deed ι)) : Prop := ∀ deed ∈ log, seesStop deed = false

theorem clear_cons {deed : Deed ι} {log : List (Deed ι)} (unseen : seesStop deed = false)
    (h : Clear log) : Clear (deed :: log) :=
  List.forall_mem_cons.mpr ⟨unseen,h⟩

theorem pairwise_of_clear {log : List (Deed ι)} (h : Clear log) :
    log.Pairwise (fun later earlier => carriesOn later = true → seesStop earlier = false) :=
  List.pairwise_of_forall_mem_list fun _ _ earlier member _ => h earlier member

theorem pairwise_cons_quiet {deed : Deed ι} {log : List (Deed ι)} (quiet : carriesOn deed = false)
    (h : log.Pairwise (fun later earlier => carriesOn later = true → seesStop earlier = false)) :
    (deed :: log).Pairwise
      (fun later earlier => carriesOn later = true → seesStop earlier = false) := by
  refine List.pairwise_cons.mpr ⟨?_,h⟩
  intro earlier _ carries
  rw [quiet] at carries
  contradiction

theorem abandons_of_clear {r : Run ι} (h : Clear r.log) : Abandons r := by
  refine ⟨pairwise_of_clear h,?_⟩
  intro member
  have unseen := h _ member
  contradiction

theorem clear_looks {o : BatchOptions} {r : Run ι} {log : List (Deed ι)}
    (unseen : r.stopSeen o = false) (h : Clear log) : Clear (looks o r.around.stopSet ++ log) := by
  intro deed member
  rcases List.mem_append.mp member with look | old
  · rw [looks_of_unseen unseen deed look]
    rfl
  · exact h deed old

section
variable {c : Consumer} {o : BatchOptions} {t : Turn ι} {g : Generator} {r : Run ι}

theorem clear_looked (h : Clear r.log) (unseen : (looked o t r).stopSeen o = false) :
    Clear (looked o t r).log := by
  rw [Run.stopSeen, looked, checkStop_around] at unseen
  rw [looked, checkStop_log]
  exact clear_looks unseen h

theorem clear_listening (h : Clear r.log) (unseen : (looked o t r).stopSeen o = false) :
    Clear (listening o t g r).log := clear_cons rfl (clear_looked h unseen)

theorem heard_log (rows : List (Row ι)) : (heard o t g r rows).log =
    .listened rows ((listening o t g r).stopSeen o) :: (listening o t g r).log := rfl

theorem quiet_log : (quiet o t g r).log =
    looks o ((heard o t g r []).meet t.again).around.stopSet ++ (heard o t g r []).log :=
  checkStop_log

theorem listening_unseen (unseen : (quiet o t g r).stopSeen o = false) :
    (listening o t g r).stopSeen o = false := by
  have later : (listening o t g r).around.Before (quiet o t g r).around := by
    rw [quiet, checkStop_around]
    exact before_trans (before_meet _ t.stops) (before_meet _ t.again)
  rw [Bool.eq_false_iff] at unseen ⊢
  intro seen
  obtain ⟨given,set_⟩ := stopSeen_iff.mp seen
  exact unseen (stopSeen_iff.mpr ⟨given,later.stop set_⟩)

theorem clear_quiet (h : Clear r.log) (unseen : (looked o t r).stopSeen o = false)
    (unseen' : (quiet o t g r).stopSeen o = false) : Clear (quiet o t g r).log := by
  rw [quiet_log]
  have around : (quiet o t g r).around = ((heard o t g r []).meet t.again).around :=
    checkStop_around
  apply clear_looks
  · rw [← unseen', Run.stopSeen, Run.stopSeen, around]
  · exact clear_cons (listening_unseen unseen') (clear_listening h unseen)

theorem pass_abandons (h : Clear r.log) {s : Run ι} (came : Passes c o t g r s)
    (unhurried : ∀ rows, (looked o t r).stopSeen o = false → t.outcome = .ok rows →
      (listening o t g r).stopSeen o = true → rows = []) :
    Clear s.log ∨ (s.status = .returned .stopped ∧ Abandons s) := by
  cases came with
  | stopped seen =>
    refine Or.inr ⟨rfl,?_,fun _ => rfl⟩
    have looks : (looked o t r).log = .checked true :: r.log := by
      rw [Run.stopSeen, looked, checkStop_around] at seen
      rw [looked, checkStop_log, looks_of_seen seen]
      rfl
    rw [become_log, looks]
    exact pairwise_cons_quiet rfl (pairwise_of_clear h)
  | failed e unseen outcome => exact Or.inl (clear_listening h unseen)
  | abandoned unseen outcome seen =>
    refine Or.inr ⟨rfl,?_,fun _ => rfl⟩
    have around : (quiet o t g r).around = ((heard o t g r []).meet t.again).around :=
      checkStop_around
    rw [Run.stopSeen, around] at seen
    rw [become_log, quiet_log, looks_of_seen seen, heard_log]
    have before := pairwise_of_clear (clear_listening (g := g) h unseen)
    exact pairwise_cons_quiet rfl (pairwise_cons_quiet rfl before)
  | once unseen outcome unseen' finite => exact Or.inl (clear_quiet h unseen unseen')
  | idle limit unseen outcome unseen' infinite force reached =>
    exact Or.inl (clear_quiet h unseen unseen')
  | again unseen outcome unseen' infinite short => exact Or.inl (clear_quiet h unseen unseen')
  | yielded rows batch elapsedMs unseen outcome some_ built took =>
    have early : (listening o t g r).stopSeen o = false := by
      rw [Bool.eq_false_iff]
      intro late
      exact some_ (unhurried rows unseen outcome late)
    exact Or.inl (clear_cons rfl (clear_cons early (clear_listening h unseen)))

end

def Abandoning (r : Run ι) : Prop :=
  Clear r.log ∨ (r.status = .returned .stopped ∧ Abandons r)

theorem abandoning_next (c : Consumer) (o : BatchOptions) (asks reads : Moment) {r : Run ι}
    (h : Abandoning r) : Abandoning (advance c o r (.next asks reads)) := by
  rcases h with clear | ⟨over_,abandons⟩
  · have resumed : Clear ((r.meet asks).resumed).log := clear_cons rfl clear
    left
    cases status : r.status with
    | created =>
      simp only [advance, status, start]
      split <;> exact resumed
    | suspended batch g =>
      simp only [advance, status, proceed]
      split
      · exact resumed
      · split <;> exact resumed
    | polling g => simpa only [advance, status] using clear
    | returned why => simpa only [advance, status] using clear
    | raised e => simpa only [advance, status] using clear
  · simp only [advance, over_]
    exact Or.inr ⟨over_,abandons⟩

theorem abandoning_kept (c : Consumer) (o : BatchOptions) (r : Run ι) (move : Move ι)
    (h : Abandoning r) (unhurried : UnhurriedListen o r move) :
    Abandoning (advance c o r move) := by
  cases move with
  | next asks reads => exact abandoning_next c o asks reads h
  | turn t =>
    cases status : r.status with
    | polling g =>
      have clear : Clear r.log := by
        rcases h with clear | ⟨over_,_⟩
        · exact clear
        · rw [status] at over_
          contradiction
      simp only [advance, status]
      exact pass_abandons clear (passes c o t g r)
        fun rows unseen outcome late => unhurried g rows status unseen outcome late
    | _ => simpa only [advance, status] using h

theorem abandons_of_abandoning (r : Run ι) (h : Abandoning r) : Abandons r := by
  rcases h with clear | ⟨_,abandons⟩
  · exact abandons_of_clear clear
  · exact abandons

theorem unhurried_of_abandons (c : Consumer) (o : BatchOptions) (r : Run ι) (move : Move ι)
    (abandons : Abandons (advance c o r move)) : UnhurriedListen o r move := by
  cases move with
  | next asks reads => trivial
  | turn t =>
    intro g rows status unseen outcome late
    by_contra some_
    obtain ⟨batch,built⟩ := build_ne_none c.name t.connection t.wall some_
    have log : (advance c o r (.turn t)).log =
        .yielded batch :: .listened rows true :: (listening o t g r).log := by
      simp only [advance, status, pass_rows unseen outcome some_, afterRows, built]
      rw [← late]
      rfl
    have apart := abandons.1
    rw [log] at apart
    have early := (List.pairwise_cons.mp apart).1 _ List.mem_cons_self rfl
    contradiction

/-- A generator lets its caller go as promised in every state of a run exactly when the
    stop event is never set while a listen that brings rows is under way. -/
theorem stop_event_abandons (c : Consumer) (o : BatchOptions) (s : Surroundings)
    (moves : List (Move ι)) :
    (∀ r ∈ visited (advance c o) { around := s } moves, Abandons r) ↔
      EveryStep (advance c o) (UnhurriedListen o) { around := s } moves := by
  apply safe_iff_clean Abandoning (abandoning_kept c o) abandons_of_abandoning
  · exact fun r move _ abandons => unhurried_of_abandons c o r move abandons
  · exact Or.inl (List.forall_mem_nil _)

/-- The event is set during a listen that brings one row. -/
def rowAfterStop : List (Move Unit) :=
  [.next {} {},.turn { outcome := .ok [⟨some 1,some 1,1,()⟩], listens := { setsStop := true } }]

theorem late_batch_handed_out :
    ¬ ∀ r ∈ visited (advance .orders { stopEvent := true }) {} rowAfterStop, Abandons r := by
  intro all
  have last := all _ (List.mem_cons_of_mem _ List.mem_cons_self)
  have early := (List.pairwise_cons.mp last.1).1 (.listened [⟨some 1,some 1,1,()⟩] true)
    List.mem_cons_self rfl
  contradiction

def isResumed : Deed ι → Bool
  | .resumed => true
  | _ => false

def sinceResumed (log : List (Deed ι)) : List (Deed ι) := log.takeWhile fun deed => !isResumed deed

def OnlyEmpty (log : List (Deed ι)) : Prop :=
  ∀ rows stop, .listened rows stop ∈ sinceResumed log → rows = []

/-- A generator that returns for idleness has been polling for that long, and in vain. -/
def IdleMeansPolling (r : Run ι) : Prop :=
  ∀ limit now, r.status = .returned (.idle limit now) →
    limit ≤ now - r.resumedAt ∧ OnlyEmpty r.log

/-- At a reading of the idle time, `last_activity` is not the limit ago unless the `next`
    of the caller is. -/
def CallerTimeHarmless (o : BatchOptions) (r : Run ι) : Move ι → Prop
  | .next _ _ => True
  | .turn t => ∀ g limit, r.status = .polling g → (looked o t r).stopSeen o = false →
      t.outcome = .ok [] → (quiet o t g r).stopSeen o = false → o.infinite = true →
      limitInForce o (rested o t g r) = some limit →
      limit ≤ now o t g r - g.lastActivity → limit ≤ now o t g r - r.resumedAt

theorem onlyEmpty_cons {deed : Deed ι} {log : List (Deed ι)} (h : OnlyEmpty log)
    (empty : ∀ rows stop, deed = .listened rows stop → rows = []) : OnlyEmpty (deed :: log) := by
  intro rows stop member
  rw [sinceResumed, List.takeWhile_cons] at member
  split at member
  · rcases List.mem_cons.mp member with same | older
    · exact empty rows stop same.symm
    · exact h rows stop older
  · contradiction

theorem onlyEmpty_resumed (log : List (Deed ι)) : OnlyEmpty (.resumed :: log) := by
  intro rows stop member
  contradiction

theorem onlyEmpty_checkStop {o : BatchOptions} {r : Run ι} (h : OnlyEmpty r.log) :
    OnlyEmpty (r.checkStop o).log := by
  rw [Run.checkStop]
  split
  · exact onlyEmpty_cons h (fun _ _ no => by cases no)
  · exact h

section
variable {c : Consumer} {o : BatchOptions} {t : Turn ι} {g : Generator} {r : Run ι}

theorem onlyEmpty_listening (h : OnlyEmpty r.log) : OnlyEmpty (listening o t g r).log := by
  have looked_ : OnlyEmpty (looked o t r).log := onlyEmpty_checkStop h
  exact onlyEmpty_cons looked_ (fun _ _ no => by cases no)

theorem onlyEmpty_quiet (h : OnlyEmpty r.log) : OnlyEmpty (quiet o t g r).log := by
  have heard_ : OnlyEmpty (heard o t g r []).log := by
    rw [heard_log]
    refine onlyEmpty_cons (onlyEmpty_listening h) ?_
    intro rows stop same
    cases same
    rfl
  exact onlyEmpty_checkStop heard_

theorem quiet_resumedAt : (quiet o t g r).resumedAt = r.resumedAt := by
  simp [quiet, heard, listening, looked]

end

def Counting (r : Run ι) : Prop :=
  ((∃ g, r.status = .polling g) → OnlyEmpty r.log) ∧ IdleMeansPolling r

theorem counting_of {r : Run ι} (empty : OnlyEmpty r.log)
    (busy : ∀ limit now, r.status ≠ .returned (.idle limit now)) : Counting r :=
  ⟨fun _ => empty,fun limit now same => absurd same (busy limit now)⟩

theorem counting_of_busy {r : Run ι} (waits : ∀ g, r.status ≠ .polling g)
    (busy : ∀ limit now, r.status ≠ .returned (.idle limit now)) : Counting r :=
  ⟨fun ⟨g,same⟩ => absurd same (waits g),fun limit now same => absurd same (busy limit now)⟩

theorem counting_kept (c : Consumer) (o : BatchOptions) (r : Run ι) (move : Move ι)
    (h : Counting r) (harmless : CallerTimeHarmless o r move) : Counting (advance c o r move) := by
  cases move with
  | next asks reads =>
    have resumed : OnlyEmpty ((r.meet asks).resumed).log := onlyEmpty_resumed _
    cases status : r.status with
    | created =>
      simp only [advance, status, start]
      split <;> exact counting_of resumed (fun _ _ no => by cases no)
    | suspended batch g =>
      simp only [advance, status, proceed]
      split
      · exact counting_of resumed (fun _ _ no => by cases no)
      · split <;> exact counting_of resumed (fun _ _ no => by cases no)
    | _ => simpa only [advance, status] using h
  | turn t =>
    cases status : r.status with
    | polling g =>
      have empty := h.1 ⟨g,status⟩
      simp only [advance, status]
      have came := passes c o t g r
      generalize pass c o t g r = s at came
      cases came with
      | stopped seen => exact counting_of (onlyEmpty_checkStop empty) (fun _ _ no => by cases no)
      | failed e unseen outcome =>
        exact counting_of (onlyEmpty_listening empty) (fun _ _ no => by cases no)
      | abandoned unseen outcome seen =>
        exact counting_of (onlyEmpty_quiet empty) (fun _ _ no => by cases no)
      | once unseen outcome unseen' finite =>
        exact counting_of (onlyEmpty_quiet empty) (fun _ _ no => by cases no)
      | idle limit unseen outcome unseen' infinite force reached =>
        have polled := harmless g limit status unseen outcome unseen' infinite force reached
        refine ⟨fun _ => onlyEmpty_quiet empty,?_⟩
        intro limit' now' same
        cases same
        refine ⟨?_,onlyEmpty_quiet empty⟩
        have since : (rested o t g r).resumedAt = r.resumedAt := quiet_resumedAt
        rw [become_resumedAt, since]
        exact polled
      | again unseen outcome unseen' infinite short =>
        exact counting_of (onlyEmpty_quiet empty) (fun _ _ no => by cases no)
      | yielded rows batch elapsedMs unseen outcome some_ built took =>
        exact counting_of_busy (fun _ no => by cases no) (fun _ _ no => by cases no)
    | _ => simpa only [advance, status] using h

theorem harmless_of_idle (c : Consumer) (o : BatchOptions) (r : Run ι) (move : Move ι)
    (safe : IdleMeansPolling (advance c o r move)) : CallerTimeHarmless o r move := by
  cases move with
  | next asks reads => trivial
  | turn t =>
    intro g limit status unseen outcome unseen' infinite force reached
    have came := passes c o t g r
    simp only [advance, status] at safe
    generalize pass c o t g r = s at came safe
    cases came with
    | idle limit' _ _ _ _ force' reached' =>
      obtain rfl : limit = limit' := Option.some.inj (force.symm.trans force')
      have since : (rested o t g r).resumedAt = r.resumedAt := quiet_resumedAt
      have polled := (safe limit _ rfl).1
      rw [become_resumedAt, since] at polled
      exact polled
    | stopped seen => rw [seen] at unseen; contradiction
    | failed e _ outcome' => rw [outcome] at outcome'; contradiction
    | abandoned _ _ seen => rw [seen] at unseen'; contradiction
    | once _ _ _ finite => rw [infinite] at finite; contradiction
    | again _ _ _ _ short => exact absurd (short limit force) (not_lt.mpr reached)
    | yielded rows batch elapsedMs _ outcome' some_ built took =>
      rw [outcome] at outcome'
      cases outcome'
      contradiction

/-- Every return for idleness in a run is one after idle polling exactly when the time the
    caller spent on its last batch never makes the difference. -/
theorem idle_time_is_listen_time (c : Consumer) (o : BatchOptions) (s : Surroundings)
    (moves : List (Move ι)) :
    (∀ r ∈ visited (advance c o) { around := s } moves, IdleMeansPolling r) ↔
      EveryStep (advance c o) (CallerTimeHarmless o) { around := s } moves := by
  apply safe_iff_clean Counting (counting_kept c o) (fun _ h => h.2)
  · exact fun r move _ safe => harmless_of_idle c o r move safe
  · exact counting_of_busy (fun _ no => by cases no) (fun _ _ no => by cases no)

/-- The caller asks for the next batch without letting time pass. -/
def Prompt : Move ι → Prop
  | .next asks _ => asks.elapsed ≤ 0
  | .turn _ => True

def InStep (r : Run ι) : Prop :=
  match r.status with
  | .polling g => r.resumedAt ≤ g.lastActivity
  | .suspended _ g => g.lastActivity = r.around.clock
  | _ => True

theorem inStep_kept (c : Consumer) (o : BatchOptions) (r : Run ι) (move : Move ι)
    (h : InStep r) (prompt : Prompt move) : InStep (advance c o r move) := by
  cases move with
  | next asks reads =>
    cases status : r.status with
    | created =>
      simp only [advance, status, start]
      split
      · exact (before_meet _ reads).clock
      · trivial
    | suspended batch g =>
      have arrived : g.lastActivity = r.around.clock := by simpa only [InStep, status] using h
      have still : (r.around.meet asks).clock = r.around.clock := by
        simp [Surroundings.meet, max_eq_left prompt]
      simp only [advance, status, proceed]
      split
      · trivial
      · split
        · trivial
        · exact (still.trans arrived.symm).le
    | _ => simpa only [advance, status] using h
  | turn t =>
    cases status : r.status with
    | polling g =>
      have since : r.resumedAt ≤ g.lastActivity := by simpa only [InStep, status] using h
      have came := passes c o t g r
      simp only [advance, status]
      generalize pass c o t g r = s at came
      cases came with
      | again unseen outcome unseen' infinite short =>
        have same : (rested o t g r).resumedAt = r.resumedAt := quiet_resumedAt
        exact same.le.trans since
      | yielded rows batch elapsedMs unseen outcome some_ built took => rfl
      | _ => trivial
    | _ => simpa only [advance, status] using h

/-- A caller that takes no time never sees the difference. -/
theorem prompt_caller_harmless (c : Consumer) (o : BatchOptions) (s : Surroundings)
    (moves : List (Move ι)) (prompt : ∀ move ∈ moves, Prompt move) :
    EveryStep (advance c o) (CallerTimeHarmless o) { around := s } moves := by
  have steps : ∀ r : Run ι, InStep r →
      EveryStep (advance c o) (CallerTimeHarmless o) r moves := by
    induction moves with
    | nil => exact fun _ _ => trivial
    | cons move rest ih =>
      intro r h
      obtain ⟨first,later⟩ := List.forall_mem_cons.mp prompt
      refine ⟨?_,ih later _ (inStep_kept c o r move h first)⟩
      cases move with
      | next asks reads => trivial
      | turn t =>
        intro g limit status _ _ _ _ _ reached
        have since : r.resumedAt ≤ g.lastActivity := by simpa only [InStep, status] using h
        exact reached.trans (sub_le_sub_left since _)
  exact steps _ trivial

/-- The caller works for a minute on its batch; the next listen is the first empty one. -/
def slowCaller : List (Move Unit) :=
  [.next {} {},.turn { outcome := .ok [⟨some 1,some 1,1,()⟩] },.next { elapsed := 60 } {},
    .turn { outcome := .ok [] }]

def Run.idleReturn (r : Run ι) : Option (ℚ × ℚ) :=
  match r.status with
  | .returned (.idle limit now) => some (limit,now)
  | _ => none

theorem status_of_idleReturn {r : Run ι} {limit now : ℚ} (h : r.idleReturn = some (limit,now)) :
    r.status = .returned (.idle limit now) := by
  unfold Run.idleReturn at h
  split at h
  · rename_i same
    cases h
    exact same
  · contradiction

theorem slow_caller_is_idle :
    ¬ ∀ r ∈ visited (advance .orders { idleTimeout := 10 }) {} slowCaller, IdleMeansPolling r := by
  intro all
  have some_ : slowCaller ≠ [] := by simp [slowCaller]
  have last := all _ (foldl_visited _ some_)
  obtain ⟨idle,resumed⟩ : (slowCaller.foldl (advance .orders { idleTimeout := 10 }) {}).idleReturn =
      some (10,60) ∧ (slowCaller.foldl (advance .orders { idleTimeout := 10 }) {}).resumedAt = 60 := by
    decide +kernel
  have polled := (last 10 60 (status_of_idleReturn idle)).1
  rw [resumed] at polled
  exact absurd polled (by decide +kernel)

end CdcGenerator
