import DucklakeCdc.CatchingUp
import DucklakeCdc.Fleets

/-!
The executions of `run` are runs of a fleet: whatever the processes of a crew do as programs,
one execution after another, with their retries, exceptions and stops, they do as a fleet,
event for event and with the same log and cursor. An execution that takes over from any fleet
and is left alone completes its work.
-/
namespace CdcFleet
open Programs Interleavings CdcBatch CdcDatabase CdcRetry CdcLoop DeliveryProtocol
open CdcDelivery hiding run
open CdcDrain (PromptExtension allAtOnce)
variable {ι : Type}

section
variable {π : Type} [DecidableEq π]

/-- The consumer of process `p`: the crew's name, its own sinks, and settings of its own. -/
def Crew.consumer (crew : Crew π) (settings : π → Consumer) (p : π) : Consumer :=
  { settings p with name := crew.name, sinks := crew.sinks p }

/-- One more execution of `run` over the one cursor, and who did what so far. -/
def takeTurn (cdc : Extension ι) (consumer : π → Consumer) (s : World ι × List (π × Event ι))
    (turn : π × Execution ι) : World ι × List (π × Event ι) :=
  let u := execute cdc (consumer turn.1) s.1 turn.2
  (u,s.2 ++ (u.trace.drop s.1.trace.length).map (turn.1,·))

/-- Some run of the fleet has come to where the program of `me` is, after what was done
    `before` its execution, with the lease and the process in a state of `at_`. -/
structure Told (crew : Crew π) (log : SnapshotLog ι) (start : Int) (me : π)
    (before : List (π × Event ι)) (at_ : Option π → Process ι → Prop) (w : World ι) : Prop where
  auto : w.db.transaction = none
  turns : ∃ turns own, let s := run (does crew) (Fleet.initial log start) turns
    s.trace = before ++ own.map (me,·) ∧ w.trace = events before ++ own ∧ s.shared.log = w.log ∧
      s.shared.cursor = w.cursor ∧ at_ s.shared.holder (s.locals me)

def Idle (_ : Option π) (l : Process ι) : Prop := l.phase.Idle

def Offers (name : String) (me : π) (b : Batch ι) (i : Nat) (holder : Option π) (l : Process ι) :
    Prop :=
  holder = some me ∧ ((l.phase = .ready ∧ i = 0 ∧
    ∃ connection now, buildBatch name connection now l.heard = some b) ∨ l.phase = .delivering b i)

def Delivered (sinks : List Sink) (me : π) (b : Batch ι) (holder : Option π) (l : Process ι) : Prop :=
  holder = some me ∧ l.phase = .delivering b sinks.length

variable {crew : Crew π} {log : SnapshotLog ι} {start : Int} {me : π} {before : List (π × Event ι)}
  {at_ next : Option π → Process ι → Prop} {w v : World ι} {settings : π → Consumer}

theorem told_mono (h : Told crew log start me before at_ w)
    (weaker : ∀ holder l, at_ holder l → next holder l) : Told crew log start me before next w where
  auto := h.auto
  turns := by
    obtain ⟨turns,own,trace,more,log_,cursor,here⟩ := h.turns
    exact ⟨turns,own,trace,more,log_,cursor,weaker _ _ here⟩

theorem told_move (h : Told crew log start me before at_ w) (auto : v.db.transaction = none)
    (moves : ∀ (a : Account π ι) l, a.log = w.log → a.cursor = w.cursor → at_ a.holder l →
      ∃ move done, does crew me a l move = some done ∧ v.trace = w.trace ++ done.1 ∧
        done.2.1.log = v.log ∧ done.2.1.cursor = v.cursor ∧ next done.2.1.holder done.2.2) :
    Told crew log start me before next v where
  auto := auto
  turns := by
    obtain ⟨turns,own,trace,told,log_,cursor,here⟩ := h.turns
    obtain ⟨move,done,possible,more,log',cursor',there⟩ := moves _ _ log_ cursor here
    refine ⟨turns ++ [(me,move)],own ++ done.1,?_⟩
    rw [run_snoc, act]
    simp only [possible, Option.map_some, Option.getD_some, after_shared, after_trace, after_self,
      trace, more, told, List.map_append, List.append_assoc]
    exact ⟨trivial,trivial,log',cursor',there⟩

theorem ambient_told : Ambient (Told (ι := ι) crew log start me before at_) := by
  refine ambient_of ?_ (fun w _ _ _ _ _ h => ⟨h.auto,h.turns⟩)
  intro w items h
  have auto : (w.land items).db.transaction = none := h.auto
  apply told_move h auto
  intro a l log_ cursor here
  refine ⟨.land items,_,rfl,?_,?_,cursor,here⟩
  · rw [log_]
    rfl
  · rw [log_]
    rfl

theorem told_started (h : Told crew log start me before at_ w) :
    Told crew log start me before Idle (w.record .started) := by
  have auto : (w.record .started).db.transaction = none := h.auto
  apply told_move h auto
  intro a l log_ cursor _
  exact ⟨.start,_,rfl,rfl,log_,cursor,trivial⟩

theorem told_listened {cdc : Extension ι} (k wish : Int) (h : Told crew log start me before Idle w) :
    Told crew log start me before
      (fun holder l => holder = some me ∧ l = ⟨.ready,nextRows cdc w k wish⟩)
      (w.record (.listened (nextRows cdc w k wish))) := by
  have auto : (w.record (.listened (nextRows cdc w k wish))).db.transaction = none := h.auto
  apply told_move h auto
  intro a l log_ cursor idle
  refine ⟨.listen (cdc.windowEnd w.log w.cursor k wish),_,if_pos (CdcApp.isIdle_iff.mpr idle),?_,
    log_,cursor,rfl,?_⟩
  · rw [log_, cursor]
    rfl
  · rw [log_, cursor]
    rfl

theorem told_wrote {b : Batch ι} {i : Nat} {sink : Sink} (raised : Option Exc)
    (there : (crew.sinks me)[i]? = some sink)
    (h : Told crew log start me before (Offers crew.name me b i) w) :
    Told crew log start me before
      (fun holder l => holder = some me ∧
        l.phase = if CdcApp.passes sink raised then .delivering b (i + 1) else .ended)
      (w.record (.wrote i b raised)) := by
  have auto : (w.record (.wrote i b raised)).db.transaction = none := h.auto
  apply told_move h auto
  intro a l log_ cursor offers
  obtain ⟨holds,offers⟩ := offers
  rcases offers with ⟨ready,rfl,connection,now,built⟩ | delivering
  · refine ⟨.write connection now raised,([.wrote 0 b raised],a,{ l with
      phase := if CdcApp.passes sink raised then .delivering b 1 else .ended }),?_,rfl,log_,cursor,
      holds,rfl⟩
    simp only [does, writes, Process.inHand, ready, built, CdcApp.advance, CdcApp.writes]
    simp [there]
  · refine ⟨.write none 0 raised,([.wrote i b raised],a,{ l with
      phase := if CdcApp.passes sink raised then .delivering b (i + 1) else .ended }),?_,rfl,log_,
      cursor,holds,rfl⟩
    simp only [does, writes, Process.inHand, delivering, CdcApp.advance, CdcApp.writes]
    simp [there]

theorem told_commit {b : Batch ι} (reply : Reply)
    (h : Told crew log start me before (Delivered (crew.sinks me) me b) w) :
    Told crew log start me before
      (fun holder l => holder = some me ∧ l.phase =
        if reply.raises.isNone then .settled b else .delivering b (crew.sinks me).length)
      (World.commitAnswered w b reply) := by
  have answer : w.db.answer (.change { advance := some b.endSnapshot }) reply = _ :=
    Database.answer_change h.auto
  have after : World.commitAnswered w b reply = ({ w with
      db := if reply.raises.isNone || reply.took then w.db.put { advance := some b.endSnapshot }
        else w.db }).record (.commitCalled b
          ((reply.raises.isNone || reply.took) && b.endSnapshot != w.cursor) reply.raises) := by
    rw [World.commitAnswered, Statement.cdcCommit, answer]
    cases reply.raises.isNone || reply.took with
    | true => simp [World.cursor]
    | false => simp
  apply told_move h
  · rw [after]
    simp only [World.record]
    split
    · rw [Database.put_autocommit h.auto]
      exact h.auto
    · exact h.auto
  intro a l log_ cursor delivered
  obtain ⟨holds,phase⟩ := delivered
  refine ⟨.commit reply.took reply.raises,([.commitCalled b
      ((reply.raises.isNone || reply.took) && b.endSnapshot != a.cursor) reply.raises],
      { a with cursor := if reply.raises.isNone || reply.took then b.endSnapshot else a.cursor },
      { l with phase :=
        if reply.raises.isNone then .settled b else .delivering b (crew.sinks me).length }),
      ?_,?_,?_,?_,holds,rfl⟩
  · simp [does, commits, phase, holds, CdcApp.advance]
  · rw [after, cursor]
    rfl
  · rw [after]
    exact log_
  · rw [after]
    simp only [World.record, World.cursor]
    split
    · simp
    · exact cursor

abbrev Somewhere (crew : Crew π) (log : SnapshotLog ι) (start : Int) (me : π)
    (before : List (π × Event ι)) : World ι → Prop :=
  Told crew log start me before fun _ _ => True

theorem somewhere_of (h : Told crew log start me before at_ w) : Somewhere crew log start me before w :=
  told_mono h fun _ _ _ => trivial

theorem ends_told_writeSink {b : Batch ι} {i : Nat} {sink : Sink}
    (there : (crew.sinks me)[i]? = some sink)
    (h : Told crew log start me before (Offers crew.name me b i) w) :
    Ends (tryExcept caughtByException (writeSink i b) fun e =>
        if sink.required then throw e else pure ()) w
      (fun _ => Told crew log start me before (Offers crew.name me b (i + 1)))
      (fun _ => Somewhere crew log start me before) := by
  rw [ends_tryExcept, writeSink, ends_bind]
  apply ends_step (fun _ => somewhere_of h)
  intro act rest script
  have wrote := told_wrote act.raises there (ambient_told.meet w rest act script h)
  have passed : CdcApp.passes sink act.raises = true →
      Told crew log start me before (Offers crew.name me b (i + 1))
        (({ w with script := rest }.meet act).record (.wrote i b act.raises)) := by
    intro pass
    refine told_mono wrote ?_
    rintro holder l ⟨holds,phase⟩
    rw [if_pos pass] at phase
    exact ⟨holds,Or.inr phase⟩
  have stopped := somewhere_of wrote
  rw [ends_bind, ends_modify]
  cases raises : act.raises with
  | none =>
    rw [raises] at passed
    exact passed rfl
  | some e =>
    rw [raises] at passed stopped
    rw [ends_throwExc]
    split
    · next caught =>
      rw [ends_ite]
      refine ⟨fun _ => stopped,fun optional => passed ?_⟩
      have exception : e.isException = true := caught
      simpa [CdcApp.passes, exception] using optional
    · exact stopped

theorem ends_told_deliverFrom {b : Batch ι} (rest done : List Sink) (w : World ι)
    (split : crew.sinks me = done ++ rest)
    (h : Told crew log start me before (Offers crew.name me b done.length) w) :
    Ends (deliverFrom b done.length rest) w
      (fun _ => Told crew log start me before (Offers crew.name me b (crew.sinks me).length))
      (fun _ => Somewhere crew log start me before) := by
  induction rest generalizing done w with
  | nil =>
    obtain rfl : done = crew.sinks me := by simpa using split.symm
    exact h
  | cons sink rest ih =>
    have there : (crew.sinks me)[done.length]? = some sink := by simp [split]
    rw [deliverFrom, ends_bind]
    refine ends_mono (ends_told_writeSink there h) ?_ (fun _ _ h => h)
    intro _ u onward
    have following := ih (done ++ [sink]) u (by simp [split])
    rw [List.length_append, List.length_singleton] at following
    exact following onward

theorem ends_told_deliver {b : Batch ι} (some_ : crew.sinks me ≠ [])
    (h : Told crew log start me before (Offers crew.name me b 0) w) :
    Ends (deliver (crew.consumer settings me) b) w
      (fun _ => Told crew log start me before (Delivered (crew.sinks me) me b))
      (fun _ => Somewhere crew log start me before) := by
  refine ends_mono (ends_told_deliverFrom (crew.sinks me) [] w rfl h) ?_ (fun _ _ h => h)
  intro _ u offered
  refine told_mono offered ?_
  rintro holder l ⟨holds,⟨_,none_,_⟩ | phase⟩
  · exact absurd (List.length_eq_zero_iff.mp none_) some_
  · exact ⟨holds,phase⟩

theorem ends_told_commit {b : Batch ι}
    (h : Told crew log start me before (Delivered (crew.sinks me) me b) w) :
    Ends (commit (crew.consumer settings me) b) w
      (fun _ => Told crew log start me before Idle)
      (fun _ => Somewhere crew log start me before) := by
  have op : ∀ u, Told crew log start me before (Delivered (crew.sinks me) me b) u →
      Ends (commitOp b) u (fun _ => Told crew log start me before Idle)
        (fun _ => Told crew log start me before (Delivered (crew.sinks me) me b)) := by
    intro u hu
    rw [commitOp, ends_bind]
    apply ends_step (fun _ => hu)
    intro act rest script
    have met := ambient_told.meet u rest act script hu
    have told := told_commit act.toReply met
    rw [ends_bind, ends_get, ends_bind, ends_set, Statement.cdcCommit,
      Database.answer_change met.auto]
    cases raises : act.raises with
    | none =>
      refine told_mono told ?_
      rintro holder l ⟨_,phase⟩
      simp only [raises, Option.isNone_none, if_true] at phase
      rw [Idle, phase]
      trivial
    | some e =>
      refine told_mono told ?_
      rintro holder l ⟨holds,phase⟩
      simp only [raises, Option.isNone_some, Bool.false_eq_true, if_false] at phase
      exact ⟨holds,phase⟩
  exact ends_mono (ends_policy _ op (ends_sleep ambient_told) w h) (fun _ _ h => h)
    (fun _ _ h => somewhere_of h)

theorem ends_told_run {cdc : Extension ι} {o : BatchOptions} (fuel : Nat)
    (h : Somewhere crew log start me before w) :
    Ends (CdcDelivery.run cdc (crew.consumer settings me) o fuel) w
      (fun _ => Somewhere crew log start me before) (fun _ => Somewhere crew log start me before) := by
  rw [CdcDelivery.run, ends_bind]
  refine ends_mono (keeps_requireOpen _ w h) ?_ (fun _ _ hu => hu)
  intro _ u here
  rw [ends_ite]
  refine ⟨fun _ => here,fun full => ?_⟩
  have some_ : crew.sinks me ≠ [] := mt List.isEmpty_iff.mpr full
  rw [ends_bind, ends_modify]
  have idle : ∀ {k wish : Int} (v : World ι), Told crew log start me before
      (fun holder l => holder = some me ∧ l = ⟨.ready,nextRows cdc v k wish⟩)
        (v.record (.listened (nextRows cdc v k wish))) →
      Told crew log start me before Idle (v.record (.listened (nextRows cdc v k wish))) := by
    intro k wish v told
    refine told_mono told ?_
    rintro _ _ ⟨_,rfl⟩
    trivial
  have polling : ∀ o, Polling cdc (crew.consumer settings me) o
      (Told (ι := ι) crew log start me before Idle)
      (fun b => Told crew log start me before (Offers crew.name me b 0))
      (Told crew log start me before Idle) (Told crew log start me before Idle) := by
    intro o
    refine polling_of_offers ambient_told (fun b => ambient_told) ?_ ?_
    · exact fun v k wish told => idle v (told_listened k wish told)
    · intro v k wish now b told built
      refine told_mono (told_listened k wish told) ?_
      rintro _ _ ⟨holds,rfl⟩
      exact ⟨holds,Or.inl ⟨rfl,rfl,_,_,built⟩⟩
  refine ends_mono (ends_forBatches (fun _ => Somewhere crew log start me before) (polling _)
    (fun _ _ => somewhere_of) ?_ fuel 0 _ (told_started here)) (fun _ _ => somewhere_of)
    (fun _ _ h => h)
  intro delivered b v _ ready
  rw [ends_bind]
  refine ends_mono (ends_told_deliver some_ ready) ?_ (fun _ _ h => h)
  intro _ v delivered
  rw [ends_bind]
  exact ends_mono (ends_told_commit delivered) (fun _ _ h => h) (fun _ _ h => h)

def Between (crew : Crew π) (log : SnapshotLog ι) (start : Int) (s : World ι × List (π × Event ι)) :
    Prop :=
  s.1.db.transaction = none ∧ ∃ turns, let t := run (does crew) (Fleet.initial log start) turns
    t.trace = s.2 ∧ events s.2 = s.1.trace ∧ t.shared.log = s.1.log ∧ t.shared.cursor = s.1.cursor

theorem between_turn (cdc : Extension ι) {s : World ι × List (π × Event ι)} (turn : π × Execution ι)
    (h : Between crew log start s) :
    Between crew log start (takeTurn cdc (crew.consumer settings) s turn) := by
  obtain ⟨auto,turns,trace,told,log_,cursor⟩ := h
  have same : (World.restart s.1 turn.2).cursor = s.1.cursor := by
    simp [World.restart, World.cursor, Database.reconnect, Database.visible, auto, Database.durable]
  have here : Somewhere crew log start turn.1 s.2 (World.restart s.1 turn.2) :=
    ⟨rfl,turns,[],by simp [trace],by simp [told, World.restart],log_,cursor.trans same.symm,trivial⟩
  have ran : Ends (CdcDelivery.run cdc (crew.consumer settings turn.1) turn.2.options turn.2.fuel)
      (World.restart s.1 turn.2) (fun _ => Somewhere crew log start turn.1 s.2)
      (fun _ => Somewhere crew log start turn.1 s.2) := ends_told_run turn.2.fuel here
  obtain ⟨auto',turns',own,trace',more,log',cursor',_⟩ := ends_final _ ran
  have added : (execute cdc (crew.consumer settings turn.1) s.1 turn.2).trace = s.1.trace ++ own := by
    rw [← told]
    exact more
  refine ⟨auto',turns',?_,?_,log',cursor'⟩
  · rw [trace', takeTurn]
    simp [added]
  · rw [takeTurn]
    simp [added, told]

/-- Executions of `run`, in any processes of a crew and any number of them, one after another
    over one cursor, are a run of the fleet, whether or not the extension enforces the lease:
    the same events, each of the process whose execution it is in, the same log, the same
    durable cursor. -/
theorem executions_are_runs (cdc : Extension ι) (crew : Crew π) (settings : π → Consumer)
    (log : SnapshotLog ι) (start : Int) (xs : List (π × Execution ι)) :
    let done := xs.foldl (takeTurn cdc (crew.consumer settings)) (World.initial log start,[])
    ∃ turns, let s := run (does crew) (Fleet.initial log start) turns
      s.trace = done.2 ∧ events s.trace = done.1.trace ∧ s.shared.log = done.1.log ∧
        s.shared.cursor = done.1.db.durable := by
  have kept : ∀ (xs : List (π × Execution ι)) (s : World ι × List (π × Event ι)),
      Between crew log start s →
      Between crew log start (xs.foldl (takeTurn cdc (crew.consumer settings)) s) := by
    intro xs
    induction xs with
    | nil => exact fun _ h => h
    | cons x xs ih => exact fun s h => ih _ (between_turn cdc x h)
  have initial : Between crew log start (World.initial log start,[]) := ⟨rfl,[],rfl,rfl,rfl,rfl⟩
  obtain ⟨auto,turns,trace,told,log_,cursor⟩ := kept xs _ initial
  exact ⟨turns,trace,trace ▸ told,log_,cursor.trans (Database.visible_autocommit auto)⟩

end

/-- Wherever the processes of a fleet have left the cursor, in any interleaving and with any
    crashes, one execution that takes over and is left alone completes the delivery: if no
    call of it raises, nobody stops it and it lasts long enough for the rows that are
    overdue, the durable cursor passes every row that was in the log when it began, and each
    of them was accepted by the required sinks of one process of the fleet, or by its own.
    More rows may land meanwhile. -/
theorem takeover_completes {π : Type} [DecidableEq π] (crew : Crew π) (log : SnapshotLog ι)
    (start : Int) (turns : List (π × Move ι)) (cdc : PromptExtension ι) (c : Consumer)
    (x : Execution ι) (opened : c.opened = true) (some_ : c.sinks ≠ [])
    (tries : Tries (c.effectiveRetry x.options.retry)) (tries' : Tries c.retryPolicy)
    (infinite : x.options.infinite = true) (unlimited : x.options.maxBatches ≤ 0)
    (answered : ∀ act ∈ x.script, act.raises = none ∧ act.setsStop = false) :
    let a := (run (does crew) (Fleet.initial log start) turns).shared
    let overdue := a.log.between a.cursor a.log.newest
    overdue.length ≤ x.fuel → overdue.length * passSteps c + 1 ≤ x.script.length →
    let u := execute cdc.toExtension c (World.initial a.log a.cursor) x
    ∀ row ∈ a.log.rows, start < row.1 → row.1 ≤ u.db.durable ∧
      (Acknowledged crew (run (does crew) (Fleet.initial log start) turns).trace row ∨
        AcceptedBefore c.sinks u row) := by
  intro a overdue enough long u row member above
  have settled : Owing a.log 0 u := settled_of_calm cdc c (World.initial a.log a.cursor) x opened
    some_ tries tries' infinite unlimited answered enough long
  obtain ⟨p,ledger⟩ : Recorded c.sinks a.cursor u :=
    executions_recorded cdc.toExtension c a.log a.cursor [x]
  have passed := passed_of_owing settled member
  refine ⟨?_,?_⟩
  · rwa [World.cursor, Database.visible_autocommit ledger.auto] at passed
  · by_cases before : row.1 ≤ a.cursor
    · exact Or.inl ((fleet_sound crew log start turns).covered row member above before)
    · exact Or.inr (accepted_of_ledger ledger (settled.logged member) (by omega) passed)

def oneSink : Consumer := { Consumer.orders with sinks := [⟨"sink",true⟩] }

def solo (c : Consumer) (fenced : Bool) : Crew Unit where
  name := c.name
  sinks _ := c.sinks
  fenced := fenced

/-- A process dies between its write of two snapshots and the commit. -/
def diedBeforeCommit : List (Unit × Move Nat) :=
  [((),.land [7]),((),.land [8]),((),.start),((),.listen 2),((),.write none 0 none)]

def leftAlone : Execution Nat where
  options := {}
  fuel := 2
  script := List.replicate 15 {}

theorem takeover_after_death :
    let a := (run (does (solo oneSink true)) (Fleet.initial (.bare 0) 0) diedBeforeCommit).shared
    let u := execute allAtOnce.toExtension oneSink (World.initial a.log a.cursor) leftAlone
    ∀ row ∈ a.log.rows, 0 < row.1 → row.1 ≤ u.db.durable ∧
      (Acknowledged (solo oneSink true) (run (does (solo oneSink true))
          (Fleet.initial (.bare 0) 0) diedBeforeCommit).trace row ∨
        AcceptedBefore oneSink.sinks u row) := by
  refine takeover_completes (solo oneSink true) (.bare 0) 0 diedBeforeCommit allAtOnce oneSink
    leftAlone rfl (by decide) ?_ ?_ rfl (by decide) ?_ ?_ ?_
  · exact (by decide : (1 : Int) ≤ 5)
  · exact (by decide : (1 : Int) ≤ 5)
  · intro act member
    rw [List.eq_of_mem_replicate member]
    exact ⟨rfl,rfl⟩
  · decide +kernel
  · decide +kernel

end CdcFleet
