import DucklakeCdc.DeliveryProtocol

/-!
Sink-driven consumption (`_ConsumerBase.run`, `_deliver`, `commit`): every batch of the
loop goes to the sinks and is then committed. Executions of `run` follow one another
over one durable cursor and may stop between any two steps.
-/
namespace CdcDelivery
open Programs Histories CdcBatch CdcDatabase CdcRetry CdcLoop DeliveryProtocol
variable {ι : Type}

def writeSink (i : Nat) (batch : Batch ι) : Client ι Unit := do
  let act ← step
  modify fun w => w.record (.wrote i batch act.raises)
  match act.raises with
  | some e => throwExc e
  | none => pure ()

def deliverFrom (batch : Batch ι) : Nat → List Sink → Client ι Unit
  | _, [] => pure ()
  | i, sink :: rest => do
    tryExcept caughtByException (writeSink i batch) fun e =>
      if sink.required then throw e else pure ()
    deliverFrom batch (i + 1) rest

def deliver (c : Consumer) (batch : Batch ι) : Client ι Unit := deliverFrom batch 0 c.sinks

def World.commitAnswered (w : World ι) (batch : Batch ι) (reply : Reply) : World ι :=
  let (raised, db) := w.db.answer (.cdcCommit batch.endSnapshot) reply
  { w with db := db }.record (.commitCalled batch (db.visible != w.db.visible) raised)

/-- `cdc_commit(name, batch.end_snapshot)` on the consumer's own connection; a call that
    raises may have moved the cursor before. -/
def commitOp (batch : Batch ι) : Client ι Unit := do
  let act ← step
  let w ← get
  set (World.commitAnswered w batch act.toReply)
  match (w.db.answer (.cdcCommit batch.endSnapshot) act.toReply).1 with
  | some e => throwExc e
  | none => pure ()

def commit (c : Consumer) (batch : Batch ι) : Client ι Unit :=
  c.retryPolicy.run sleep (commitOp batch)

def noSinksError (c : Consumer) : Exc := .raised .runtimeError
  s!"{c.kind.className}.run() requires at least one sink; use batches() for manual iteration"

def run (cdc : Extension ι) (c : Consumer) (o : BatchOptions) (fuel : Nat) : Client ι Int := do
  requireOpen c
  if c.sinks.isEmpty then throwExc (noSinksError c)
  else do
    modify fun w => w.record .started
    forBatches cdc c { o with drainEvent := false, drainIdleTimeout := 2 }
      (fun delivered batch => do
        deliver c batch
        commit c batch
        pure (delivered + 1)) fuel 0

/-- One execution of `run`: its arguments and everything the process meets in it. -/
structure Execution (ι : Type) where
  options : BatchOptions
  fuel : Nat
  clock : ℚ := 0
  script : List (Act ι)

def World.restart (w : World ι) (x : Execution ι) : World ι :=
  { w with
    db := w.db.reconnect
    script := x.script
    clock := x.clock
    stopSet := false
    drainSet := false }

def execute (cdc : Extension ι) (c : Consumer) (w : World ι) (x : Execution ι) : World ι :=
  finalState (run cdc c x.options x.fuel) (World.restart w x)

def executions (cdc : Extension ι) (c : Consumer) (w : World ι) (xs : List (Execution ι)) :
    World ι := xs.foldl (execute cdc c) w

def advances (trace : List (Event ι)) : List (Batch ι) :=
  trace.filterMap fun
    | .commitCalled b true _ => some b
    | _ => none

/-- Each batch starts right after the end of the one before it, from `at_` to `stop`. -/
def Contiguous : Int → List (Batch ι) → Int → Prop
  | at_, [], stop => at_ = stop
  | at_, b :: rest, stop => b.startSnapshot = at_ + 1 ∧ Contiguous b.endSnapshot rest stop

theorem contiguous_snoc {start stop : Int} {bs : List (Batch ι)} {b : Batch ι}
    (chain : Contiguous start bs stop) (next : b.startSnapshot = stop + 1) :
    Contiguous start (bs ++ [b]) b.endSnapshot := by
  induction bs generalizing start with
  | nil =>
    obtain rfl : start = stop := chain
    exact ⟨next,rfl⟩
  | cons first rest ih => exact ⟨chain.1,ih chain.2⟩

theorem contiguous_covers {start stop n : Int} {bs : List (Batch ι)}
    (chain : Contiguous start bs stop) (above : start < n) (below : n ≤ stop) :
    ∃ b ∈ bs, b.startSnapshot ≤ n ∧ n ≤ b.endSnapshot := by
  induction bs generalizing start with
  | nil =>
    obtain rfl : start = stop := chain
    omega
  | cons first rest ih =>
    by_cases inside : n ≤ first.endSnapshot
    · have := chain.1
      exact ⟨first,List.mem_cons_self,by omega,inside⟩
    · obtain ⟨b,member,bounds⟩ := ih chain.2 (by omega)
      exact ⟨b,List.mem_cons_of_mem first member,bounds⟩

theorem advances_snoc (trace : List (Event ι)) (event : Event ι) :
    advances (trace ++ [event]) = advances trace ++ advances [event] :=
  List.filterMap_append

theorem advances_commit (b : Batch ι) (moved : Bool) (raised : Option Exc) :
    advances [.commitCalled b moved raised] = if moved then [b] else [] := by
  cases moved <;> rfl

theorem mem_advances {trace : List (Event ι)} {b : Batch ι} (member : b ∈ advances trace) :
    ∃ before raised after, trace = before ++ .commitCalled b true raised :: after := by
  obtain ⟨event,inside,is_⟩ := List.mem_filterMap.mp member
  obtain ⟨before,after,rfl⟩ := List.append_of_mem inside
  split at is_
  · cases is_
    exact ⟨before,_,after,rfl⟩
  · contradiction

/-- What the trace, the log and the durable cursor say of one another in phase `p`. -/
structure Ledger (sinks : List Sink) (start : Int) (p : Phase ι) (w : World ι) : Prop where
  path : Path (Follows sinks) .ended w.trace p
  auto : w.db.transaction = none
  chain : Contiguous start (advances w.trace) w.cursor
  whole : ∀ b ∈ advances w.trace, IsWindow w.log (b.startSnapshot - 1) b

variable {sinks : List Sink} {start : Int} {p q : Phase ι} {w : World ι} {trace : List (Event ι)}

theorem ledger_record {event : Event ι} (h : Ledger sinks start p w)
    (step : Follows sinks p event q) (still : advances [event] = []) :
    Ledger sinks start q (w.record event) where
  path := path_snoc h.path step
  auto := h.auto
  chain := by
    simpa only [World.record, World.cursor, advances_snoc, still, List.append_nil] using h.chain
  whole := by
    simpa only [World.record, advances_snoc, still, List.append_nil] using h.whole

theorem ambient_ledger : Ambient (Ledger (ι := ι) sinks start p) := by
  refine ambient_of ?_ (fun w _ _ _ _ _ h => ⟨h.path,h.auto,h.chain,h.whole⟩)
  intro w items h
  have landed : Follows sinks p (.landed (w.log.newest + 1) items) p := Follows.landed
  have recorded := ledger_record h landed rfl
  exact ⟨recorded.path,h.auto,recorded.chain,
    fun b member => isWindow_land items (recorded.whole b member)⟩

def InHand (b : Batch ι) (w : World ι) : Prop := IsWindow w.log w.cursor b

theorem ambient_inHand (b : Batch ι) : Ambient (InHand b) :=
  ambient_of (fun _ items h => isWindow_land items h) (fun _ _ _ _ _ _ h => h)

/-- The commit of `b` is due: the cursor is right before it, or already at its end. -/
structure Due (b : Batch ι) (w : World ι) : Prop where
  window : IsWindow w.log (b.startSnapshot - 1) b
  cursor : w.cursor + 1 = b.startSnapshot ∨ w.cursor = b.endSnapshot

theorem ambient_due (b : Batch ι) : Ambient (Due b) :=
  ambient_of (fun _ items h => ⟨isWindow_land items h.window,h.cursor⟩)
    (fun _ _ _ _ _ _ h => ⟨h.window,h.cursor⟩)

theorem due_of_inHand {b : Batch ι} (h : InHand b w) : Due b w := by
  have start := h.start
  refine ⟨?_,Or.inl start.symm⟩
  rw [start, Int.add_sub_cancel]
  exact h

section
variable (sinks start)

def Waiting (w : World ι) : Prop := ∃ p, p.Idle ∧ Ledger sinks start p w

def Recorded (w : World ι) : Prop := ∃ p, Ledger sinks start p w

end

/-- The policy lets an operation be called at all. -/
def Tries : RetryPolicy → Prop
  | .retryOnTransient maxAttempts _ => 1 ≤ maxAttempts
  | .noRetry => True

/-- The phase and the trace of an execution that ends by itself: a batch that every sink has
    passed is left uncommitted only after a call of its commit. -/
structure Complete (sinks : List Sink) (policy : RetryPolicy) (p : Phase ι)
    (trace : List (Event ι)) : Prop where
  halted : p.Over sinks
  asked : ∀ b, p = .delivering b sinks.length → Tries policy → Asked b trace

/-- Where an execution stands that a crash cuts off, or that raises: a raise comes out of a
    listen, a refusal or a commit. -/
def Halted (sinks : List Sink) (policy : RetryPolicy) (start : Int) (stop : Stop)
    (w : World ι) : Prop :=
  ∃ p, Ledger sinks start p w ∧ (stop = .crashed ∨ Complete sinks policy p w.trace)

variable {policy : RetryPolicy}

theorem recorded_of_halted {stop : Stop} (h : Halted sinks policy start stop w) :
    Recorded sinks start w := by
  obtain ⟨p,ledger,_⟩ := h
  exact ⟨p,ledger⟩

theorem complete_idle (idle : p.Idle) : Complete sinks policy p trace where
  halted := Or.inl idle
  asked := by
    rintro b rfl
    exact idle.elim

theorem halted_of_waiting (stop : Stop) (h : Waiting sinks start w) :
    Halted sinks policy start stop w := by
  obtain ⟨p,idle,ledger⟩ := h
  exact ⟨p,ledger,Or.inr (complete_idle idle)⟩

theorem unhindered_of_complete (ledger : Ledger sinks start p w)
    (complete : Complete sinks policy p w.trace) : Unhindered (Tries policy) sinks w.trace :=
  unhindered_of_path ledger.path complete.halted complete.asked

theorem ambient_waiting : Ambient (Waiting (ι := ι) sinks start) where
  meet w rest act script h := by
    obtain ⟨p,idle,ledger⟩ := h
    exact ⟨p,idle,ambient_ledger.meet w rest act script ledger⟩
  clock w t h := by
    obtain ⟨p,idle,ledger⟩ := h
    exact ⟨p,idle,ambient_ledger.clock w t ledger⟩

def Offering (sinks : List Sink) (start : Int) (b : Batch ι) (i : Nat) (w : World ι) : Prop :=
  (∃ p, p.Awaits b i ∧ Ledger sinks start p w) ∧ InHand b w

theorem ambient_offering {b : Batch ι} {i : Nat} : Ambient (Offering sinks start b i) := by
  refine ambient_and ⟨?_,?_⟩ (ambient_inHand b)
  · intro w rest act script facts
    obtain ⟨p,awaits,ledger⟩ := facts
    exact ⟨p,awaits,ambient_ledger.meet w rest act script ledger⟩
  · intro w t facts
    obtain ⟨p,awaits,ledger⟩ := facts
    exact ⟨p,awaits,ambient_ledger.clock w t ledger⟩

theorem ends_writeSink {b : Batch ι} {i : Nat} {sink : Sink} (at_ : sinks[i]? = some sink)
    (h : Offering sinks start b i w) :
    Ends (tryExcept caughtByException (writeSink i b) fun e =>
        if sink.required then throw e else pure ()) w
      (fun _ => Offering sinks start b (i + 1)) (Halted sinks policy start) := by
  rw [ends_tryExcept, writeSink, ends_bind]
  apply ends_step
  · intro _
    obtain ⟨⟨p,_,ledger⟩,_⟩ := h
    exact ⟨p,ledger,Or.inl rfl⟩
  intro act rest script
  obtain ⟨⟨p,awaits,ledger⟩,inHand⟩ := ambient_offering.meet w rest act script h
  by_cases pass : Passes sink act.raises
  · have next := ledger_record ledger (Follows.passed awaits at_ pass) rfl
    have onward : Offering sinks start b (i + 1)
        (({ w with script := rest }.meet act).record (.wrote i b act.raises)) :=
      ⟨⟨_,Or.inr rfl,next⟩,inHand⟩
    rw [ends_bind, ends_modify]
    cases raises : act.raises with
    | none => rw [raises] at onward; exact onward
    | some e =>
      rw [raises] at pass onward
      rcases pass with no | ⟨optional,e',same,exception⟩
      · contradiction
      · cases same
        simpa [caughtByException, Failure.python, Failure.raised, exception, optional] using onward
  · have next := ledger_record ledger (Follows.refused awaits at_ pass) rfl
    have stopped : ∀ stop, Halted sinks policy start stop
        (({ w with script := rest }.meet act).record (.wrote i b act.raises)) :=
      fun _ => ⟨_,next,Or.inr ⟨Or.inr (Or.inl rfl),fun _ no => by cases no⟩⟩
    rw [ends_bind, ends_modify]
    cases raises : act.raises with
    | none => exact absurd (Or.inl raises) pass
    | some e =>
      rw [raises] at pass stopped
      simp only [Passes, reduceCtorEq, Option.some.injEq, false_or, not_and, not_exists] at pass
      rw [ends_throwExc]
      split
      · rename_i caught
        have required : sink.required = true := by
          by_contra optional
          exact pass (by simpa using optional) e rfl
            (by simpa [caughtByException, Failure.python, Failure.raised] using caught)
        simpa [required] using stopped _
      · exact stopped _

theorem ends_deliverFrom {b : Batch ι} (rest done : List Sink) (w : World ι)
    (split : sinks = done ++ rest) (h : Offering sinks start b done.length w) :
    Ends (deliverFrom b done.length rest) w (fun _ => Offering sinks start b sinks.length)
      (Halted sinks policy start) := by
  induction rest generalizing done w with
  | nil =>
    obtain rfl : sinks = done := by simpa using split
    exact h
  | cons sink rest ih =>
    have at_ : sinks[done.length]? = some sink := by simp [split]
    rw [deliverFrom, ends_bind]
    refine ends_mono (ends_writeSink at_ h) ?_ (fun _ _ h => h)
    intro _ u onward
    have following := ih (done ++ [sink]) u (by simp [split])
    rw [List.length_append, List.length_singleton] at following
    exact following onward

theorem ends_deliver {c : Consumer} {b : Batch ι} (some_ : c.sinks ≠ [])
    (fresh : Ledger c.sinks start .ready w) (inHand : InHand b w) :
    Ends (deliver c b) w
      (fun _ u => Ledger c.sinks start (.delivering b c.sinks.length) u ∧ InHand b u)
      (Halted c.sinks policy start) := by
  have offered : Offering c.sinks start b 0 w := ⟨⟨_,Or.inl ⟨rfl,rfl⟩,fresh⟩,inHand⟩
  refine ends_mono (ends_deliverFrom c.sinks [] w rfl offered) ?_ (fun _ _ h => h)
  intro _ u facts
  obtain ⟨⟨p,awaits,ledger⟩,inHand⟩ := facts
  rcases awaits with ⟨_,none_⟩ | rfl
  · exact absurd (List.length_eq_zero_iff.mp none_) some_
  · exact ⟨ledger,inHand⟩

theorem ledger_commit {b : Batch ι} {reply : Reply}
    (h : Ledger sinks start (.delivering b sinks.length) w) (due : Due b w)
    (step : ∀ moved, Follows sinks (.delivering b sinks.length)
      (.commitCalled b moved reply.raises) q) :
    Ledger sinks start q (World.commitAnswered w b reply) ∧
      Due b (World.commitAnswered w b reply) := by
  rw [World.commitAnswered, Statement.cdcCommit, Database.answer_change h.auto]
  have stay : ∀ raised, advances (w.trace ++ [.commitCalled b false raised]) =
      advances w.trace := fun raised => by simp [advances_snoc, advances_commit]
  by_cases takes : reply.raises.isNone || reply.took
  · have moved : advances (w.trace ++
        [.commitCalled b (b.endSnapshot != w.cursor) reply.raises]) =
        advances w.trace ++ if w.cursor = b.endSnapshot then [] else [b] := by
      by_cases same : w.cursor = b.endSnapshot
      · simp [advances_snoc, advances_commit, same]
      · simp [advances_snoc, advances_commit, same, Ne.symm same]
    simp only [takes, if_true, Database.visible_put_advance]
    refine ⟨⟨path_snoc h.path (step _),?_,?_,?_⟩,due.window,Or.inr ?_⟩
    · simp [World.record, Database.put_autocommit h.auto, h.auto]
    · simp only [World.record, World.cursor, Database.visible_put_advance]
      rw [show w.db.visible = w.cursor from rfl, moved]
      split
      · rename_i same
        simpa [← same] using h.chain
      · rename_i other
        apply contiguous_snoc h.chain
        rcases due.cursor with before | at_
        · exact before.symm
        · exact absurd at_ other
    · simp only [World.record]
      rw [show w.db.visible = w.cursor from rfl, moved]
      intro b' member
      rcases List.mem_append.mp member with old | new
      · exact h.whole b' old
      · split at new
        · contradiction
        · rw [List.mem_singleton.mp new]
          exact due.window
    · simp only [World.record, World.cursor, Database.visible_put_advance]
  · simp only [takes, Bool.false_eq_true, if_false, bne_self_eq_false]
    refine ⟨⟨path_snoc h.path (step false),h.auto,?_,?_⟩,due.window,due.cursor⟩
    · simp only [World.record, stay]
      exact h.chain
    · simp only [World.record, stay]
      exact h.whole

theorem keeps_commitOp {inv : World ι → Prop} {b : Batch ι} (amb : Ambient inv)
    (answered : ∀ u reply, inv u → inv (World.commitAnswered u b reply)) :
    Keeps inv (commitOp b) := by
  intro w h
  rw [commitOp, ends_bind]
  apply ends_step (fun _ => h)
  intro act rest script
  have kept := answered _ act.toReply (amb.meet w rest act script h)
  rw [ends_bind, ends_get, ends_bind, ends_set]
  cases (({ w with script := rest }.meet act).db.answer (.cdcCommit b.endSnapshot)
    act.toReply).1 <;> exact kept

theorem ends_policy_tries {ε σ α : Type} [Failure ε] {sleep : ℚ → EStateM ε σ Unit}
    {operation : EStateM ε σ α} {inv : σ → Prop} {ok : α → σ → Prop} {err : ε → σ → Prop} {s : σ}
    (op : ∀ s, inv s → Ends operation s ok (fun e t => err e t ∧ inv t))
    (rest : ∀ d s, inv s → Ends (sleep d) s (fun _ => inv) (fun _ _ => False))
    (uncalled : ¬ Tries policy → ∀ s, inv s → err (Failure.raised maxAttemptsError) s)
    (begun : inv s) : Ends (policy.run sleep operation) s ok err := by
  cases policy with
  | noRetry => exact ends_mono (op s begun) (fun _ _ h => h) (fun _ _ h => h.1)
  | retryOnTransient maxAttempts baseSleep =>
    rw [RetryPolicy.run, retryOnTransient, ends_ite]
    constructor
    · intro none_
      exact uncalled (Int.not_le.mpr none_) s begun
    · intro _
      exact ends_attempts op (rest baseSleep) _ s begun

theorem ends_commit {c : Consumer} {b : Batch ι}
    (h : Ledger c.sinks start (.delivering b c.sinks.length) w) (due : Due b w) :
    Ends (commit c b) w (fun _ => Ledger c.sinks start (.settled b))
      (Halted c.sinks c.retryPolicy start) := by
  let pending : World ι → Prop := fun u =>
    Ledger c.sinks start (.delivering b c.sinks.length) u ∧ Due b u
  have amb : Ambient pending := ambient_and ambient_ledger (ambient_due b)
  have halted : (Phase.delivering b c.sinks.length).Over c.sinks := Or.inr (Or.inr ⟨b,rfl⟩)
  have op : ∀ u, pending u → Ends (commitOp b) u (fun _ => Ledger c.sinks start (.settled b))
      (fun stop v => Halted c.sinks c.retryPolicy start stop v ∧ pending v) := by
    intro u hu
    rw [commitOp, ends_bind]
    apply ends_step (fun _ => ⟨⟨_,hu.1,Or.inl rfl⟩,hu⟩)
    intro act rest script
    obtain ⟨ledger,due⟩ := amb.meet u rest act script hu
    rw [ends_bind, ends_get, ends_bind, ends_set, Statement.cdcCommit,
      Database.answer_change ledger.auto]
    cases raises : act.raises with
    | none => exact (ledger_commit ledger due fun _ => raises ▸ Follows.committed).1
    | some e =>
      have kept := ledger_commit ledger due fun _ => raises ▸ Follows.retried
      refine ⟨⟨_,kept.1,Or.inr ⟨halted,?_⟩⟩,kept⟩
      intro b' same _
      cases same
      exact asked_snoc
  refine ends_policy_tries op (ends_sleep amb) ?_ ⟨h,due⟩
  intro uncalled u hu
  exact ⟨_,hu.1,Or.inr ⟨halted,fun _ _ called => absurd called uncalled⟩⟩

/-- Once it has started, an execution that is not cut off raises between deliveries, after a
    refusal or out of a commit. -/
theorem ends_started {cdc : Extension ι} {c : Consumer} {o : BatchOptions} (fuel : Nat)
    (none_ : c.sinks ≠ []) (begun : Waiting c.sinks start w) :
    Ends (forBatches cdc c o
      (fun delivered batch => do
        deliver c batch
        commit c batch
        pure (delivered + 1 : Int)) fuel 0) w
      (fun _ => Waiting c.sinks start) (Halted c.sinks c.retryPolicy start) := by
  have polling : Polling cdc c o
      (Waiting (ι := ι) c.sinks start) (fun b v => Ledger c.sinks start .ready v ∧ InHand b v)
      (Waiting c.sinks start) (Waiting c.sinks start) := by
    have listened : ∀ v k wish, Waiting (ι := ι) c.sinks start v →
        Ledger c.sinks start .ready (v.record (.listened (nextRows cdc v k wish))) := by
      intro v k wish facts
      obtain ⟨p,idle,ledger⟩ := facts
      exact ledger_record ledger (Follows.listened idle) rfl
    refine polling_of_offers ambient_waiting
      (fun b => ambient_and ambient_ledger (ambient_inHand b)) ?_ ?_
    · exact fun v k wish h => ⟨.ready,trivial,listened v k wish h⟩
    · exact fun v k wish now b h built => ⟨listened v k wish h,isWindow_of_nextRows built⟩
  refine ends_forBatches (Halted c.sinks c.retryPolicy start) polling (fun stop _ => halted_of_waiting stop)
    ?_ fuel 0 _ begun
  intro delivered b v _ facts
  obtain ⟨ledger,inHand⟩ := facts
  rw [ends_bind]
  refine ends_mono (ends_deliver none_ ledger inHand) ?_ (fun _ _ hu => hu)
  intro _ x facts
  obtain ⟨ledger,inHand⟩ := facts
  rw [ends_bind]
  refine ends_mono (ends_commit ledger (due_of_inHand inHand)) ?_ (fun _ _ hu => hu)
  exact fun _ y ledger => ⟨.settled b,trivial,ledger⟩

/-- `run` does nothing at all for a consumer that is not open or has no sinks. -/
theorem ends_execution {cdc : Extension ι} {c : Consumer} {o : BatchOptions} (fuel : Nat)
    (h : Recorded c.sinks start w) :
    Ends (run cdc c o fuel) w (fun _ => Waiting c.sinks start)
      (fun stop u => (u = w ∧ (c.opened = false ∨ c.sinks = [])) ∨
        Halted c.sinks c.retryPolicy start stop u) := by
  obtain ⟨p,ledger⟩ := h
  rw [run, requireOpen]
  split
  · rw [ends_bind, ends_pure, ends_ite]
    refine ⟨fun none_ => Or.inl ⟨rfl,Or.inr (List.isEmpty_iff.mp none_)⟩,fun some_ => ?_⟩
    rw [ends_bind, ends_modify]
    have begun : Waiting c.sinks start (w.record .started) :=
      ⟨.ready,trivial,ledger_record ledger Follows.started rfl⟩
    exact ends_mono (ends_started fuel (mt List.isEmpty_iff.mpr some_) begun) (fun _ _ h => h)
      (fun _ _ h => Or.inr h)
  · rename_i closed
    exact Or.inl ⟨rfl,Or.inl (Bool.not_eq_true _ ▸ closed)⟩

theorem run_leads {cdc : Extension ι} {c : Consumer} {o : BatchOptions} (fuel : Nat) :
    Keeps (Recorded (ι := ι) c.sinks start) (run cdc c o fuel) := by
  intro w h
  refine ends_mono (ends_execution fuel h) ?_ ?_
  · rintro _ u ⟨p,_,ledger⟩
    exact ⟨p,ledger⟩
  · rintro _ u (⟨rfl,_⟩ | halted)
    · exact h
    · exact recorded_of_halted halted

theorem execution_unhindered {cdc : Extension ι} {c : Consumer} {o : BatchOptions} (fuel : Nat)
    (h : Recorded c.sinks start w) :
    Ends (run cdc c o fuel) w (fun _ u => Unhindered (Tries c.retryPolicy) c.sinks u.trace)
      (fun stop u => stop = .crashed ∨ u.trace = w.trace ∨
        Unhindered (Tries c.retryPolicy) c.sinks u.trace) := by
  refine ends_mono (ends_execution fuel h) ?_ ?_
  · rintro _ u ⟨p,idle,ledger⟩
    exact unhindered_of_complete ledger (complete_idle idle)
  · rintro stop u (⟨rfl,_⟩ | ⟨p,ledger,crashed | complete⟩)
    · exact Or.inr (Or.inl rfl)
    · exact Or.inl crashed
    · exact Or.inr (Or.inr (unhindered_of_complete ledger complete))

def World.initial (log : SnapshotLog ι) (start : Int) : World ι where
  log := log
  db := { start := start }

theorem ledger_restart (x : Execution ι) (h : Ledger sinks start p w) :
    Ledger sinks start p (World.restart w x) where
  path := h.path
  auto := rfl
  chain := by
    have same : (World.restart w x).cursor = w.cursor := by
      simp [World.restart, World.cursor, Database.reconnect, Database.visible, h.auto,
        Database.durable]
    rw [same]
    exact h.chain
  whole := h.whole

theorem executions_recorded (cdc : Extension ι) (c : Consumer) (log : SnapshotLog ι) (start : Int)
    (xs : List (Execution ι)) :
    Recorded c.sinks start (executions cdc c (World.initial log start) xs) := by
  have kept : ∀ (xs : List (Execution ι)) (w : World ι), Recorded c.sinks start w →
      Recorded c.sinks start (executions cdc c w xs) := by
    intro xs
    induction xs with
    | nil => exact fun _ h => h
    | cons x xs ih =>
      intro w facts
      obtain ⟨p,ledger⟩ := facts
      exact ih _ (ends_final _ (run_leads x.fuel _ ⟨p,ledger_restart x ledger⟩))
  exact kept xs _ ⟨.ended,Path.nil _,rfl,rfl,by simp [advances, World.initial]⟩

/-- A change row the durable cursor has passed was accepted, in the execution that
    committed it and before the commit, by every required sink. -/
def AcceptedBefore (sinks : List Sink) (w : World ι) (row : Int × ι) : Prop :=
  ∃ b before raised after, w.trace = before ++ .commitCalled b true raised :: after ∧
    b.startSnapshot ≤ row.1 ∧ row.1 ≤ b.endSnapshot ∧ row.2 ∈ b.items ∧ Accepted sinks before b

/-- Any number of executions of `run` over one cursor, any sinks, any exceptions, stops
    and window choices: nothing is committed that a required sink has not accepted,
    commits leave no gap, a batch a required sink refused is not committed in that
    execution, and nothing else than the next step of the delivery follows an optional sink's
    exception. An execution that no crash cuts off takes that step and all that come after
    it: the later sinks receive the batch and its commit is called. -/
theorem run_at_least_once (cdc : Extension ι) (c : Consumer) (log : SnapshotLog ι) (start : Int)
    (xs : List (Execution ι)) :
    let w := executions cdc c (World.initial log start) xs
    (∀ row ∈ w.log.rows, start < row.1 → row.1 ≤ w.db.durable → AcceptedBefore c.sinks w row) ∧
    Contiguous start (advances w.trace) w.db.durable ∧
    (∀ before i b e after sink, w.trace = before ++ .wrote i b (some e) :: after →
      c.sinks[i]? = some sink → sink.required = true →
      ∀ event ∈ after.takeWhile (fun event => !isStarted event), ¬ IsCommit event) ∧
    (∀ before i b e after sink, w.trace = before ++ .wrote i b (some e) :: after →
      c.sinks[i]? = some sink → sink.required = false → e.isException = true →
      ∀ event, (after.filter fun event => !isLanded event).head? = some event →
        GoesOn c.sinks b (i + 1) event) ∧
    ∀ x : Execution ι, Ends (run cdc c x.options x.fuel) (World.restart w x)
      (fun _ u => Unhindered (Tries c.retryPolicy) c.sinks u.trace)
      (fun stop u => stop = .crashed ∨ u.trace = w.trace ∨
        Unhindered (Tries c.retryPolicy) c.sinks u.trace) := by
  obtain ⟨p,ledger⟩ := executions_recorded cdc c log start xs
  have path := ledger.path
  have chain := ledger.chain
  rw [World.cursor, Database.visible_autocommit ledger.auto] at chain
  refine ⟨?_,chain,?_,?_,fun x => execution_unhindered x.fuel ⟨p,ledger_restart x ledger⟩⟩
  · intro row member above below
    obtain ⟨b,committed,low,high⟩ := contiguous_covers chain above below
    obtain ⟨before,raised,after,split⟩ := mem_advances committed
    rw [split] at path
    refine ⟨b,before,raised,after,split,low,high,?_,commit_accepted path⟩
    rw [(ledger.whole b committed).items]
    exact SnapshotLog.mem_between member (by omega) high
  · intro before i b e after sink split at_ required
    rw [split] at path
    exact refused_not_committed at_ required path
  · intro before i b e after sink split at_ optional exception
    rw [split] at path
    exact optional_goes_on at_ optional exception path

end CdcDelivery
