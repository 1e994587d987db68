import DucklakeCdc.DrainLoop

/-!
Progress, beside the safety of `SinkDelivery`: an execution of `run` that is left alone for
long enough, wherever the cursor stands, brings it past every row that was there when it
began. As long as rows are overdue, each pass of the loop delivers and commits a batch of
them in a known number of steps, and there are no more passes than overdue rows.
-/
namespace CdcDelivery
open Programs CdcBatch CdcDatabase CdcRetry CdcLoop CdcDrain DeliveryProtocol
variable {ι : Type}

theorem ends_policy_returns {ε σ α : Type} [Failure ε] {sleep : ℚ → EStateM ε σ Unit}
    {operation : EStateM ε σ α} {s : σ} {ok : α → σ → Prop} (policy : RetryPolicy)
    (tries : Tries policy) (op : Ends operation s ok (fun _ _ => False)) :
    Ends (policy.run sleep operation) s ok (fun _ _ => False) := by
  cases policy with
  | noRetry => exact op
  | retryOnTransient maxAttempts baseSleep =>
    rw [RetryPolicy.run, retryOnTransient, if_neg (Int.not_lt.mpr tries)]
    cases (maxAttempts - 1).toNat with
    | zero => exact op
    | succ left =>
      rw [attempts, ends_tryExcept]
      exact ends_mono op (fun _ _ h => h) (fun _ _ no => no.elim)

/-- At least so many steps are to come, no call in them raises and nobody stops the loop. -/
structure Calm (steps : Nat) (w : World ι) : Prop where
  long : steps ≤ w.script.length
  answered : ∀ act ∈ w.script, act.raises = none
  never : StopNever w

def Overdue (w : World ι) : Prop := ∃ row ∈ w.log.rows, w.cursor < row.1

/-- The log has grown from `base`, and no more than `n` rows of `base` lie beyond the cursor. -/
structure Owing (base : SnapshotLog ι) (n : Nat) (w : World ι) : Prop where
  auto : w.db.transaction = none
  logged : base.rows ⊆ w.log.rows
  landed : base.newest ≤ w.log.newest
  few : (w.log.between w.cursor base.newest).length ≤ n

def Offered (b : Batch ι) (w : World ι) : Prop := InHand b w ∧ b.items ≠ []

variable {steps n : Nat} {base : SnapshotLog ι} {w : World ι} {b : Batch ι} {inv : World ι → Prop}

theorem calm_le {fewer : Nat} (less : fewer ≤ steps) (calm : Calm steps w) : Calm fewer w :=
  ⟨less.trans calm.long,calm.answered,calm.never⟩

theorem ambient_overdue : Ambient (Overdue (ι := ι)) := by
  refine ambient_of ?_ (fun _ _ _ _ _ _ h => h)
  rintro w items ⟨row,member,above⟩
  exact ⟨row,List.mem_append_left _ member,above⟩

theorem ambient_owing : Ambient (Owing (ι := ι) base n) := by
  refine ambient_of ?_ (fun _ _ _ _ _ _ h => ⟨h.auto,h.logged,h.landed,h.few⟩)
  intro w items h
  have landed := h.landed
  refine ⟨h.auto,fun _ member => List.mem_append_left _ (h.logged member),?_,?_⟩
  · simp only [World.land, SnapshotLog.land]
    omega
  · rw [World.land, World.cursor, SnapshotLog.between_land w.log items landed]
    exact h.few

theorem ambient_offered : Ambient (Offered b) :=
  ambient_and (ambient_inHand b) ⟨fun _ _ _ _ h => h,fun _ _ h => h⟩

theorem offered_record (u : World ι) (event : Event ι) (h : Owing base n u ∧ Offered b u) :
    Owing base n (u.record event) ∧ Offered b (u.record event) :=
  ⟨⟨h.1.auto,h.1.logged,h.1.landed,h.1.few⟩,h.2⟩

theorem overdue_of_owing (some_ : w.log.between w.cursor base.newest ≠ []) : Overdue w := by
  obtain ⟨row,member,above,_⟩ := SnapshotLog.between_ne_nil_iff.mp some_
  exact ⟨row,member,above⟩

theorem owing_zero (h : Owing base n w) (none_ : w.log.between w.cursor base.newest = []) :
    Owing base 0 w :=
  ⟨h.auto,h.logged,h.landed,by rw [none_]; exact Nat.le_refl _⟩

theorem passed_of_owing (h : Owing base 0 w) {row : Int × ι} (member : row ∈ base.rows) :
    row.1 ≤ w.cursor := by
  by_contra beyond
  have here := SnapshotLog.mem_between (h.logged member) (Int.not_le.mp beyond)
    (base.bounded row member)
  rw [List.length_eq_zero_iff.mp (Nat.le_zero.mp h.few)] at here
  cases here

theorem between_later {log : SnapshotLog ι} {lo lo' hi : Int} (forward : lo ≤ lo') :
    (log.between lo' hi).length ≤ (log.between lo hi).length := by
  simp only [SnapshotLog.between, List.length_map]
  refine (List.monotone_filter_right log.rows ?_).length_le
  intro row inside
  rw [SnapshotLog.inWindow_iff] at inside ⊢
  omega

theorem few_after {log : SnapshotLog ι} {cursor upTo : Int} (window : IsWindow log cursor b)
    (some_ : b.items ≠ []) (few : (log.between cursor upTo).length ≤ n) :
    (log.between b.endSnapshot upTo).length ≤ n - 1 := by
  by_cases inside : b.endSnapshot ≤ upTo
  · have parts := (SnapshotLog.between_split log window.forward.le inside).length_eq
    rw [List.length_append, ← window.items] at parts
    have := List.length_pos_iff.mpr some_
    omega
  · have none_ : log.between b.endSnapshot upTo = [] := by
      by_contra rest
      obtain ⟨row,_,above,below⟩ := SnapshotLog.between_ne_nil_iff.mp rest
      omega
    rw [none_]
    exact Nat.zero_le _

theorem owing_answered {reply : Reply} (h : Owing base n w) (ahead : w.cursor ≤ b.endSnapshot) :
    Owing base n (World.commitAnswered w b reply) ∧
      (World.commitAnswered w b reply).cursor ≤ b.endSnapshot := by
  have forward : w.cursor ≤ (World.commitAnswered w b reply).cursor ∧
      (World.commitAnswered w b reply).cursor ≤ b.endSnapshot := by
    have moved := Database.visible_answer w.db b.endSnapshot reply
    simp only [World.cursor, World.commitAnswered, World.record] at ahead ⊢
    omega
  refine ⟨⟨?_,h.logged,h.landed,(between_later forward.1).trans h.few⟩,forward.2⟩
  rw [World.commitAnswered, Statement.cdcCommit, Database.answer_change h.auto]
  simp only [World.record]
  split
  · rw [Database.put_autocommit h.auto]
    exact h.auto
  · exact h.auto

theorem ends_step_calm (amb : Ambient inv) (calm : Calm (steps + 1) w) (h : inv w) :
    Ends step w (fun act u => act.raises = none ∧ Calm steps u ∧ inv u) (fun _ _ => False) := by
  have long := calm.long
  apply ends_step
  · intro ended
    rw [ended] at long
    exact absurd long (Nat.not_succ_le_zero steps)
  · intro act rest script
    have answered := calm.answered
    rw [script, List.length_cons] at long
    rw [script, List.forall_mem_cons] at answered
    refine ⟨answered.1,⟨?_,?_,?_⟩,amb.meet w rest act script h⟩
    · rw [meet_script]
      exact Nat.le_of_succ_le_succ long
    · rw [meet_script]
      exact answered.2
    · exact ambient_stopNever.meet w rest act script calm.never

theorem ends_readClock_calm (amb : Ambient inv) (calm : Calm (steps + 1) w) (h : inv w) :
    Ends readClock w (fun _ u => Calm steps u ∧ inv u) (fun _ _ => False) := by
  rw [readClock, ends_bind]
  exact ends_mono (ends_step_calm amb calm h) (fun _ _ facts => facts.2) (fun _ _ no => no)

theorem ends_stopRequested_calm (amb : Ambient inv) (o : BatchOptions)
    (calm : Calm (steps + 1) w) (h : inv w) :
    Ends (stopRequested o) w (fun stop u => stop = false ∧ Calm steps u ∧ inv u)
      (fun _ _ => False) := by
  rw [stopRequested, ends_ite]
  refine ⟨fun _ => ?_,fun _ => ⟨rfl,calm_le (Nat.le_succ steps) calm,h⟩⟩
  rw [ends_bind]
  exact ends_mono (ends_step_calm amb calm h)
    (fun _ _ facts => ⟨facts.2.1.never.1,facts.2.1,facts.2.2⟩) (fun _ _ no => no)

section
variable {cdc : PromptExtension ι} {c : Consumer} {o : BatchOptions} {k : Int}

theorem polling_owing (cdc : Extension ι) (c : Consumer) (o : BatchOptions)
    (base : SnapshotLog ι) (n : Nat) :
    Polling cdc c o (Owing base n) Offered (Owing base n) (Owing base n) := by
  refine polling_of_offers ambient_owing (fun b => ambient_offered) ?_ ?_
  · exact fun u k wish h => ⟨h.auto,h.logged,h.landed,h.few⟩
  · intro u k wish now b h built
    obtain ⟨_,stop,items,some_,_⟩ := built_of_windowRows built
    exact ⟨isWindow_of_nextRows built,by rw [items]; exact some_⟩

theorem ends_listenOp_calm (c : Consumer) (o : BatchOptions) (calm : Calm (steps + 1) w)
    (owing : Owing base n w) (overdue : Overdue w) :
    Ends (listenOp cdc.toExtension k) w
      (fun rows u => Calm steps u ∧ rows ≠ [] ∧
        InFlight c (Owing base n) Offered (Owing base n) rows u) (fun _ _ => False) := by
  rw [listenOp, ends_bind]
  refine ends_mono (ends_step_calm (ambient_and ambient_owing ambient_overdue) calm
    ⟨owing,overdue⟩) ?_ (fun _ _ no => no)
  rintro act u ⟨answered,calm,owing,overdue⟩
  simp only [answered]
  have polling := polling_owing cdc.toExtension c o base n
  have kept := polling.listened u k act.wish owing
  refine ⟨⟨calm.long,calm.answered,calm.never⟩,?_,kept,fun _ => kept,?_⟩
  · intro none_
    apply cdc.prompt u.log u.cursor k act.wish overdue
    simpa [nextRows, windowRows, SnapshotLog.between] using none_
  · exact fun now b built => polling.built u k act.wish now b owing built

theorem ends_poll_calm (tries : Tries (c.effectiveRetry o.retry)) (fuel : Nat) (g : Generator)
    (calm : Calm (steps + 5) w) (owing : Owing base n w) (overdue : Overdue w) :
    Ends (poll cdc.toExtension c o (fuel + 1) g) w
      (fun given u => ∃ b g', given = some (b,g') ∧ Calm steps u ∧ Owing base n u ∧ Offered b u)
      (fun _ _ => False) := by
  have polling := polling_owing cdc.toExtension c o base n
  have amb : Ambient fun u : World ι => Owing base n u ∧ Overdue u :=
    ambient_and ambient_owing ambient_overdue
  rw [poll, ends_bind]
  refine ends_mono (ends_stopRequested_calm amb o calm ⟨owing,overdue⟩) ?_ (fun _ _ no => no)
  rintro stop w ⟨rfl,calm,h⟩
  rw [if_neg Bool.false_ne_true, ends_bind]
  refine ends_mono (ends_readClock_calm amb calm h) ?_ (fun _ _ no => no)
  rintro listenStarted w ⟨calm,owing,overdue⟩
  rw [ends_bind]
  refine ends_mono (ends_policy_returns _ tries (ends_listenOp_calm c o calm owing overdue)) ?_
    (fun _ _ no => no)
  rintro rows w ⟨calm,some_,flight⟩
  rw [ends_bind]
  refine ends_mono (ends_readClock_calm (ambient_inFlight polling rows) calm flight) ?_
    (fun _ _ no => no)
  rintro listenEnded w ⟨calm,flight⟩
  rw [if_neg (by simpa using some_), ends_bind]
  refine ends_mono (ends_readClock_calm (ambient_inFlight polling rows) calm flight) ?_
    (fun _ _ no => no)
  rintro lastActivity w ⟨calm,flight⟩
  obtain ⟨batch,built⟩ := build_ne_none c.name (some w.db.live) w.wall some_
  rw [ends_bind, buildRows, ends_bind, ends_get, built]
  exact ⟨batch,_,rfl,calm,flight.inv,flight.ready _ batch built⟩

theorem ends_deliverFrom_calm (amb : Ambient inv)
    (recorded : ∀ u event, inv u → inv (World.record u event)) (rest : List Sink) (i : Nat)
    (calm : Calm (steps + rest.length) w) (h : inv w) :
    Ends (deliverFrom b i rest) w (fun _ u => Calm steps u ∧ inv u) (fun _ _ => False) := by
  induction rest generalizing i w with
  | nil => exact ⟨calm,h⟩
  | cons sink rest ih =>
    rw [deliverFrom, ends_bind, ends_tryExcept, writeSink, ends_bind]
    refine ends_mono (ends_step_calm amb calm h) ?_ (fun _ _ no => no.elim)
    rintro act u ⟨answered,calm,h⟩
    rw [ends_bind, ends_modify]
    simp only [answered]
    exact ih (i + 1) ⟨calm.long,calm.answered,calm.never⟩ (recorded u _ h)

theorem ends_commit_calm (tries : Tries c.retryPolicy) (calm : Calm (steps + 1) w)
    (owing : Owing base n w) (offered : Offered b w) :
    Ends (commit c b) w (fun _ u => Calm steps u ∧ Owing base (n - 1) u) (fun _ _ => False) := by
  refine ends_policy_returns _ tries ?_
  rw [commitOp, ends_bind]
  refine ends_mono (ends_step_calm (ambient_and ambient_owing ambient_offered) calm
    ⟨owing,offered⟩) ?_ (fun _ _ no => no)
  rintro act u ⟨answered,calm,owing,window,some_⟩
  have kept : Owing base n (World.commitAnswered u b act.toReply) :=
    (owing_answered owing window.forward.le).1
  rw [ends_bind, ends_get, ends_bind, ends_set, Statement.cdcCommit,
    Database.answer_change owing.auto]
  simp only [answered]
  refine ⟨⟨calm.long,calm.answered,calm.never⟩,kept.auto,kept.logged,kept.landed,?_⟩
  have cursor : (World.commitAnswered u b act.toReply).cursor = b.endSnapshot := by
    simp [World.commitAnswered, World.cursor, World.record, Statement.cdcCommit,
      Database.answer_change owing.auto, answered]
  rw [cursor]
  exact few_after window some_ owing.few

theorem keeps_deliverFrom (amb : Ambient inv)
    (recorded : ∀ u event, inv u → inv (World.record u event)) (rest : List Sink) (i : Nat) :
    Keeps inv (deliverFrom b i rest) := by
  induction rest generalizing i with
  | nil => exact fun _ h => h
  | cons sink rest ih =>
    intro w h
    rw [deliverFrom, ends_bind, ends_tryExcept, writeSink, ends_bind]
    have refused : ∀ e u, inv u →
        Ends (if sink.required then throw e else pure () : Client ι Unit) u
          (fun _ v => Ends (deliverFrom b (i + 1) rest) v (fun _ => inv) (fun _ => inv))
          (fun _ => inv) :=
      fun e u hu => ends_ite.mpr ⟨fun _ => hu,fun _ => ih (i + 1) u hu⟩
    refine ends_mono (keeps_step amb w h) ?_ ?_
    · intro act u hu
      rw [ends_bind, ends_modify]
      cases act.raises with
      | none => exact ih (i + 1) _ (recorded u _ hu)
      | some e =>
        rw [ends_throwExc]
        split
        · exact refused _ _ (recorded u _ hu)
        · exact recorded u _ hu
    · intro e u hu
      split
      · exact refused e u hu
      · exact hu

theorem keeps_owing (acc : Int) (owing : Owing base n w) (offered : Offered b w) :
    Ends (do
        deliver c b
        commit c b
        pure (acc + 1)) w (fun _ => Owing base n) (fun _ => Owing (ι := ι) base n) := by
  rw [ends_bind]
  refine ends_mono (keeps_deliverFrom (ambient_and ambient_owing ambient_offered) offered_record c.sinks
    0 w ⟨owing,offered⟩) ?_ (fun _ _ h => h.1)
  rintro _ w ⟨owing,offered⟩
  have amb : Ambient fun u : World ι => Owing base n u ∧ u.cursor ≤ b.endSnapshot :=
    ambient_and ambient_owing (ambient_db fun db => db.visible ≤ b.endSnapshot)
  have answered : ∀ u reply, Owing base n u ∧ u.cursor ≤ b.endSnapshot →
      Owing base n (World.commitAnswered u b reply) ∧
        (World.commitAnswered u b reply).cursor ≤ b.endSnapshot :=
    fun u reply h => owing_answered h.1 h.2
  rw [ends_bind]
  exact ends_mono (keeps_policy c.retryPolicy (keeps_commitOp amb answered) (ends_sleep amb) w
    ⟨owing,offered.1.forward.le⟩) (fun _ _ h => h.1) (fun _ _ h => h.1)

theorem keeps_forRest (cdc : Extension ι) (c : Consumer) (o : BatchOptions) (fuel : Nat)
    (given : Option (Batch ι × Generator)) (acc : Int) (w : World ι)
    (h : Given (Owing base n) Offered (Owing base n) given w) :
    Ends (forRest cdc c o (fun delivered batch => do
        deliver c batch
        commit c batch
        pure (delivered + 1)) fuel given acc) w
      (fun _ => Owing base n) (fun _ => Owing base n) := by
  induction fuel generalizing given acc w with
  | zero =>
    cases given with
    | none => exact h
    | some _ => exact h.1
  | succ fuel ih =>
    cases given with
    | none => exact h
    | some given =>
      obtain ⟨batch,g⟩ := given
      rw [forRest, ends_bind]
      refine ends_mono (keeps_owing acc h.1 h.2) ?_ (fun _ _ hu => hu)
      intro acc' u hu
      rw [ends_bind]
      exact ends_mono (ends_resume (polling_owing cdc c o base n) fuel g u hu)
        (fun given v hv => ih given acc' v hv) (fun _ _ hv => hv)

theorem keeps_resumed (cdc : Extension ι) (c : Consumer) (o : BatchOptions) (fuel : Nat)
    (g : Generator) (acc : Int) (h : Owing base n w) :
    Ends (do
        let given ← resume cdc c o fuel g
        forRest cdc c o (fun delivered batch => do
          deliver c batch
          commit c batch
          pure (delivered + 1)) fuel given acc) w
      (fun _ => Owing base n) (fun _ => Owing base n) := by
  rw [ends_bind]
  exact ends_mono (ends_resume (polling_owing cdc c o base n) fuel g w h)
    (fun given v hv => keeps_forRest cdc c o fuel given acc v hv) (fun _ _ hv => hv)

/-- The steps of a pass of the loop that finds rows. -/
def passSteps (c : Consumer) : Nat := c.sinks.length + 6

theorem ends_handled_calm (acc : Int) (tries : Tries c.retryPolicy)
    (calm : Calm (steps + (c.sinks.length + 1)) w) (owing : Owing base n w)
    (offered : Offered b w) :
    Ends (do
        deliver c b
        commit c b
        pure (acc + 1)) w (fun _ u => Calm steps u ∧ Owing base (n - 1) u) (fun _ _ => False) := by
  have enough : Calm (steps + 1 + c.sinks.length) w := calm_le (by omega) calm
  rw [ends_bind]
  refine ends_mono (ends_deliverFrom_calm (ambient_and ambient_owing ambient_offered) offered_record
    c.sinks 0 enough ⟨owing,offered⟩) ?_ (fun _ _ no => no)
  rintro _ u ⟨calm,owing,offered⟩
  rw [ends_bind]
  exact ends_mono (ends_commit_calm tries calm owing offered) (fun _ _ h => h) (fun _ _ no => no)

/-- With a batch in hand and at most `n` rows owed after it, `n` more passes bring the
    cursor past all of them. -/
theorem ends_forRest_calm (tries : Tries (c.effectiveRetry o.retry)) (tries' : Tries c.retryPolicy)
    (infinite : o.infinite = true) (unlimited : o.maxBatches ≤ 0) (n fuel : Nat) (g : Generator)
    (acc : Int) (enough : n < fuel) (calm : Calm (n * passSteps c + (c.sinks.length + 1)) w)
    (owing : Owing base (n + 1) w) (offered : Offered b w) :
    Ends (forRest cdc.toExtension c o (fun delivered batch => do
        deliver c batch
        commit c batch
        pure (delivered + 1)) fuel (some (b,g)) acc) w
      (fun _ => Owing base 0) (fun _ => Owing base 0) := by
  induction n generalizing fuel g acc b w with
  | zero =>
    obtain ⟨fuel,rfl⟩ := Nat.exists_eq_add_one_of_ne_zero (Nat.ne_of_gt enough)
    rw [forRest, ends_bind]
    refine ends_mono (ends_handled_calm acc tries' calm owing offered) ?_ (fun _ _ no => no.elim)
    rintro acc' u ⟨_,settled⟩
    exact keeps_resumed cdc.toExtension c o fuel g acc' settled
  | succ n ih =>
    obtain ⟨fuel,rfl⟩ := Nat.exists_eq_add_one_of_ne_zero (Nat.ne_zero_of_lt enough)
    rw [forRest, ends_bind]
    refine ends_mono (ends_handled_calm acc tries' calm owing offered) ?_ (fun _ _ no => no.elim)
    rintro acc' u ⟨calm,owing⟩
    by_cases none_ : u.log.between u.cursor base.newest = []
    · exact keeps_resumed cdc.toExtension c o fuel g acc' (owing_zero owing none_)
    obtain ⟨fuel,rfl⟩ := Nat.exists_eq_add_one_of_ne_zero (show fuel ≠ 0 by omega)
    have next : Calm (n * passSteps c + (c.sinks.length + 1) + 5) u := by
      refine calm_le ?_ calm
      rw [Nat.succ_mul, passSteps]
      omega
    rw [ends_bind, resume, if_neg (by simp [infinite]), if_neg (by omega)]
    refine ends_mono (ends_poll_calm tries fuel _ next owing (overdue_of_owing none_)) ?_
      (fun _ _ no => no.elim)
    rintro given v ⟨b',g',rfl,calm,owing,offered⟩
    exact ih (fuel + 1) g' acc' (by omega) calm owing offered

theorem ends_forBatches_calm (opened : c.opened = true)
    (tries : Tries (c.effectiveRetry o.retry)) (tries' : Tries c.retryPolicy)
    (infinite : o.infinite = true) (unlimited : o.maxBatches ≤ 0) (fuel : Nat) (enough : n ≤ fuel)
    (calm : Calm (n * passSteps c + 1) w) (owing : Owing base n w) :
    Ends (forBatches cdc.toExtension c o (fun delivered batch => do
        deliver c batch
        commit c batch
        pure (delivered + 1 : Int)) fuel 0) w
      (fun _ => Owing base 0) (fun _ => Owing base 0) := by
  by_cases none_ : w.log.between w.cursor base.newest = []
  · exact ends_forBatches (fun _ => Owing base 0) (polling_owing cdc.toExtension c o base 0)
      (fun _ _ h => h) (fun acc _ _ h offered => keeps_owing acc h offered) fuel 0 w
      (owing_zero owing none_)
  have counted : n ≠ 0 := by
    rintro rfl
    exact none_ (List.length_eq_zero_iff.mp (Nat.le_zero.mp owing.few))
  obtain ⟨n,rfl⟩ := Nat.exists_eq_add_one_of_ne_zero counted
  obtain ⟨fuel,rfl⟩ := Nat.exists_eq_add_one_of_ne_zero (show fuel ≠ 0 by omega)
  rw [forBatches, ends_bind, batches, ends_bind, requireOpen, if_pos opened, ends_pure, ends_bind]
  refine ends_mono (ends_readClock_calm (ambient_and ambient_owing ambient_overdue) calm
    ⟨owing,overdue_of_owing none_⟩) ?_ (fun _ _ no => no.elim)
  rintro started u ⟨calm,owing,overdue⟩
  have next : Calm (n * passSteps c + (c.sinks.length + 1) + 5) u := by
    refine calm_le ?_ calm
    rw [Nat.succ_mul, passSteps]
    omega
  refine ends_mono (ends_poll_calm tries fuel _ next owing overdue) ?_ (fun _ _ no => no.elim)
  rintro given v ⟨b,g,rfl,calm,owing,offered⟩
  exact ends_forRest_calm tries tries' infinite unlimited n (fuel + 1) g 0 (by omega) calm owing
    offered

theorem ends_run_calm (opened : c.opened = true) (some_ : c.sinks ≠ [])
    (tries : Tries (c.effectiveRetry o.retry)) (tries' : Tries c.retryPolicy)
    (infinite : o.infinite = true) (unlimited : o.maxBatches ≤ 0) (fuel : Nat) (enough : n ≤ fuel)
    (calm : Calm (n * passSteps c + 1) w) (owing : Owing base n w) :
    Ends (run cdc.toExtension c o fuel) w (fun _ => Owing base 0) (fun _ => Owing base 0) := by
  have begun : Owing base n (w.record .started) := ⟨owing.auto,owing.logged,owing.landed,owing.few⟩
  have going : Calm (n * passSteps c + 1) (w.record .started) :=
    ⟨calm.long,calm.answered,calm.never⟩
  rw [run, ends_bind, requireOpen, if_pos opened, ends_pure, if_neg (by simpa using some_), ends_bind,
    ends_modify]
  let polite : BatchOptions := { o with drainEvent := false, drainIdleTimeout := 2 }
  have allowed : Tries (c.effectiveRetry polite.retry) := tries
  exact ends_forBatches_calm opened allowed tries' infinite unlimited fuel enough going begun

end

theorem accepted_of_ledger {sinks : List Sink} {start : Int} {p : Phase ι}
    (h : Ledger sinks start p w) {row : Int × ι} (member : row ∈ w.log.rows) (above : start < row.1)
    (below : row.1 ≤ w.cursor) : AcceptedBefore sinks w row := by
  obtain ⟨b,committed,low,high⟩ := contiguous_covers h.chain above below
  obtain ⟨before,raised,after,split⟩ := mem_advances committed
  have path := h.path
  rw [split] at path
  refine ⟨b,before,raised,after,split,low,high,?_,commit_accepted path⟩
  rw [(h.whole b committed).items]
  exact SnapshotLog.mem_between member (by omega) high

/-- An execution that is left alone for long enough owes nothing in the end. -/
theorem settled_of_calm (cdc : PromptExtension ι) (c : Consumer) (w : World ι) (x : Execution ι)
    (opened : c.opened = true) (some_ : c.sinks ≠ [])
    (tries : Tries (c.effectiveRetry x.options.retry)) (tries' : Tries c.retryPolicy)
    (infinite : x.options.infinite = true) (unlimited : x.options.maxBatches ≤ 0)
    (answered : ∀ act ∈ x.script, act.raises = none ∧ act.setsStop = false)
    (enough : (w.log.between w.db.durable w.log.newest).length ≤ x.fuel)
    (long : (w.log.between w.db.durable w.log.newest).length * passSteps c + 1 ≤
      x.script.length) :
    Owing w.log 0 (execute cdc.toExtension c w x) := by
  have cursor : (World.restart w x).cursor = w.db.durable := by
    simp [World.restart, World.cursor, Database.reconnect, Database.visible, Database.durable]
  have calm : Calm ((w.log.between w.db.durable w.log.newest).length * passSteps c + 1)
      (World.restart w x) :=
    ⟨long,fun act inside => (answered act inside).1,rfl,fun act inside => (answered act inside).2⟩
  have owing : Owing w.log (w.log.between w.db.durable w.log.newest).length (World.restart w x) :=
    ⟨rfl,List.Subset.refl _,Int.le_refl _,by rw [cursor]; exact Nat.le_refl _⟩
  exact ends_final _
    (ends_run_calm opened some_ tries tries' infinite unlimited x.fuel enough calm owing)

end CdcDelivery
