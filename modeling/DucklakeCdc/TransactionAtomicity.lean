import DucklakeCdc.BatchTransaction
import DucklakeCdc.Histories

/-!
Any order of use of one `BatchTransaction`. Its statements run on the connection whatever
the object's state, so outside a BEGIN each of them is a commit of its own: a sequence of
calls is atomic with the cursor exactly when no call writes there.
-/
namespace CdcAtomicity
open Programs Histories CdcBatch CdcDatabase CdcRetry CdcLoop CdcTransaction
variable {ι : Type}

inductive Call (ι : Type) where
  | enter
  | execute (items : List ι)
  | executemany (items : List ι)
  | exit (raised : Option Exc)

def Call.run (c : Consumer) : Call ι → TxClient ι Unit
  | .enter => CdcTransaction.enter
  | .execute items => CdcTransaction.execute items
  | .executemany items => CdcTransaction.executemany items
  | .exit raised => CdcTransaction.exit c raised

def Call.written : Call ι → List ι
  | .execute items | .executemany items => items
  | _ => []

structure Use (ι : Type) where
  call : Call ι
  script : List (Act ι)

def use (c : Consumer) (s : Session ι) (u : Use ι) : Session ι :=
  finalState (u.call.run c) { s with world := { s.world with script := u.script } }

/-- No write since `old` is durable without the advance to `stop` in the same commit. -/
def Atomic (old : List (Commit ι)) (stop : Int) (db : Database ι) : Prop :=
  ∃ new, db.commits = old ++ new ∧
    ∀ commit ∈ new, commit.writes ≠ [] → commit.advance = some stop

def Torn (old : List (Commit ι)) (stop : Int) (db : Database ι) : Prop :=
  ∃ new, db.commits = old ++ new ∧
    ∃ commit ∈ new, commit.writes ≠ [] ∧ commit.advance ≠ some stop

def takesEffect : List (Act ι) → Bool
  | [] => false
  | act :: _ => act.raises.isNone || act.took

/-- A write that reaches the connection while no transaction is open there. -/
def WritesOutside (s : Session ι) (u : Use ι) : Prop :=
  u.call.written ≠ [] ∧ s.tx.connection = s.world.db.live ∧
    s.world.db.transaction = none ∧ takesEffect u.script = true

variable {old : List (Commit ι)} {stop : Int} {db : Database ι} {w : World ι} {s : Session ι}
  {conn : Nat}

theorem torn_not_atomic (torn : Torn old stop db) : ¬ Atomic old stop db := by
  intro facts
  obtain ⟨new,same,all⟩ := facts
  obtain ⟨new',same',commit,member,writes,advance⟩ := torn
  obtain rfl : new = new' := List.append_cancel_left (same.symm.trans same')
  exact advance (all commit member writes)

theorem atomic_snoc {commit : Commit ι} (h : Atomic old stop db)
    (good : commit.writes ≠ [] → commit.advance = some stop) (still : Option (Transaction ι)) :
    Atomic old stop { db with commits := db.commits ++ [commit], transaction := still } := by
  obtain ⟨new,same,all⟩ := h
  refine ⟨new ++ [commit],by simp [same],?_⟩
  intro other member
  rcases List.mem_append.mp member with before | last
  · exact all other before
  · rw [List.mem_singleton.mp last]
    exact good

theorem torn_snoc {commit : Commit ι} (h : Torn old stop db) (still : Option (Transaction ι)) :
    Torn old stop { db with commits := db.commits ++ [commit], transaction := still } := by
  obtain ⟨new,same,bad,member,is_⟩ := h
  exact ⟨new ++ [commit],by simp [same],bad,List.mem_append_left _ member,is_⟩

def Within (conn : Nat) (stop : Int) (fact : Database ι → Prop) (s : Session ι) : Prop :=
  (s.tx.connection = conn ∧ s.tx.endSnapshot = stop) ∧ fact s.world.db

theorem ends_answered {stmt : Statement ι} {ok err : Database ι → Prop} (unanswered : err w.db)
    (failed : ∀ reply e db, w.db.answer stmt reply = (some e, db) → err db)
    (done : ∀ reply db, w.db.answer stmt reply = (none, db) → ok db) :
    Ends (executeOn conn stmt) w (fun _ u => ok u.db) (fun _ u => err u.db) := by
  apply ends_executeOn (fun _ => unanswered)
  · intro act rest e _ _
    rw [meet_db]
    exact unanswered
  · exact fun act rest e db _ _ answer => failed _ e db answer
  · exact fun act rest db _ _ answer => done _ db answer

theorem ends_end {stmt : Statement ι} (h : Atomic old stop w.db)
    (ends : stmt = .begin ∨ stmt = .rollback) :
    Ends (executeOn conn stmt) w (fun _ u => Atomic old stop u.db)
      (fun _ u => Atomic old stop u.db) := by
  have answered : ∀ reply, ∃ raised still,
      w.db.answer stmt reply = (raised, { w.db with transaction := still }) := by
    intro reply
    rcases ends with rfl | rfl
    · rcases Database.answer_begin w.db reply with ⟨_,done⟩ | ⟨e,still,failed,_⟩
      · exact ⟨none,_,done⟩
      · exact ⟨some e,still,failed⟩
    · exact Database.answer_rollback w.db reply
  apply ends_answered h
  · intro reply e db answer
    obtain ⟨raised,still,same⟩ := answered reply
    rw [same] at answer
    cases answer
    exact h
  · intro reply db answer
    obtain ⟨raised,still,same⟩ := answered reply
    rw [same] at answer
    cases answer
    exact h

variable {change : Commit ι}

theorem answered_outside {act : Act ι} {rest : List (Act ι)} {failure : Option Exc}
    (script : w.script = act :: rest) (auto : w.db.transaction = none)
    (answer : w.db.answer (.change change) act.toReply = (failure, db)) :
    db = if takesEffect w.script then { w.db with commits := w.db.commits ++ [change] }
      else w.db := by
  rw [Database.answer_change auto, Database.put_autocommit auto] at answer
  rw [script]
  exact (congrArg Prod.snd answer).symm

theorem ends_change_inside (h : Atomic old stop w.db) (open_ : w.db.transaction ≠ none) :
    Ends (executeOn conn (.change change)) w
      (fun _ u => Atomic old stop u.db ∧ u.db.transaction ≠ none)
      (fun _ u => Atomic old stop u.db) := by
  obtain ⟨t,is_⟩ := Option.ne_none_iff_exists'.mp open_
  refine @ends_answered ι w conn (.change change)
    (fun db => Atomic old stop db ∧ db.transaction ≠ none) (Atomic old stop) h ?_ ?_
  · intro reply e db answer
    rcases Database.answer_change_inside change reply is_ with
      ⟨_,done⟩ | ⟨_,_,failed,_⟩
    · rw [done] at answer
      cases answer
    · rw [failed] at answer
      cases answer
      exact h
  · intro reply db answer
    rcases Database.answer_change_inside change reply is_ with
      ⟨_,done⟩ | ⟨_,_,failed,_⟩
    · rw [done] at answer
      cases answer
      exact ⟨h,fun no => by cases no⟩
    · rw [failed] at answer
      cases answer

theorem ends_change_clean (change : Commit ι) (h : Atomic old stop w.db)
    (clean : change.writes ≠ [] → conn = w.db.live → w.db.transaction = none →
      takesEffect w.script = false) :
    Ends (executeOn conn (.change change)) w
      (fun _ u => Atomic old stop u.db ∧ (change.writes ≠ [] → u.db.transaction ≠ none))
      (fun _ u => Atomic old stop u.db) := by
  cases open_ : w.db.transaction with
  | some t =>
    have inside : w.db.transaction ≠ none := by simp [open_]
    exact ends_mono (ends_change_inside h inside) (fun _ _ hu => ⟨hu.1,fun _ => hu.2⟩)
      (fun _ _ hu => hu)
  | none =>
    have answered : ∀ act rest failure db, w.script = act :: rest → conn = w.db.live →
        w.db.answer (.change change) act.toReply = (failure, db) → Atomic old stop db := by
      intro act rest failure db script live answer
      rw [answered_outside script open_ answer]
      split
      · rename_i takes
        have writes : change.writes = [] := by
          by_contra some_
          rw [clean some_ live open_] at takes
          contradiction
        exact atomic_snoc h (fun some_ => absurd writes some_) _
      · exact h
    apply ends_executeOn (fun _ => h)
    · intro act rest e _ _
      rw [meet_db]
      exact h
    · exact fun act rest e db script live answer => answered act rest _ db script live answer
    · intro act rest db script live answer
      refine ⟨answered act rest _ db script live answer,fun some_ => ?_⟩
      have quiet := clean some_ live open_
      rw [Database.answer_change open_] at answer
      have returned : act.raises = none := congrArg Prod.fst answer
      simp [script, takesEffect, returned] at quiet

theorem ends_change_torn (h : Torn old stop w.db) :
    Ends (executeOn conn (.change change)) w (fun _ u => Torn old stop u.db)
      (fun _ u => Torn old stop u.db) := by
  have answered : ∀ reply failure db,
      w.db.answer (.change change) reply = (failure, db) → Torn old stop db := by
    intro reply failure db answer
    cases open_ : w.db.transaction with
    | some t =>
      rcases Database.answer_change_inside change reply open_ with
        ⟨_,done⟩ | ⟨_,_,failed,_⟩
      · rw [done] at answer
        cases answer
        exact h
      · rw [failed] at answer
        cases answer
        exact h
    | none =>
      rw [Database.answer_change open_, Database.put_autocommit open_] at answer
      cases answer
      split
      · exact torn_snoc h _
      · exact h
  exact ends_answered h (fun reply e db answer => answered reply _ db answer)
    (fun reply db answer => answered reply _ db answer)

/-- A write outside a transaction tears it from the cursor, whether or not it raises. -/
theorem ends_change_tears (change : Commit ι) (h : Atomic old stop w.db) (writes : change.writes ≠ [])
    (advance : change.advance ≠ some stop) (live : conn = w.db.live)
    (auto : w.db.transaction = none) (takes : takesEffect w.script = true) :
    Ends (executeOn conn (.change change)) w (fun _ u => Torn old stop u.db)
      (fun _ u => Torn old stop u.db) := by
  have answered : ∀ act rest failure db, w.script = act :: rest →
      w.db.answer (.change change) act.toReply = (failure, db) → Torn old stop db := by
    intro act rest failure db script answer
    obtain ⟨new,same,_⟩ := h
    rw [answered_outside script auto answer, takes, if_pos rfl]
    exact ⟨new ++ [change],by simp [same],change,by simp,writes,advance⟩
  apply ends_executeOn
  · intro empty
    rw [empty] at takes
    contradiction
  · exact fun act rest e _ closed => absurd live closed
  · exact fun act rest e db script _ answer => answered act rest _ db script answer
  · exact fun act rest db script _ answer => answered act rest _ db script answer

theorem ends_onSession {stmt : Statement ι} {fact ok err : Database ι → Prop}
    (h : Within conn stop fact s)
    (statement : Ends (executeOn conn stmt) s.world (fun _ u => ok u.db) (fun _ u => err u.db)) :
    Ends (onWorld (executeOn s.tx.connection stmt)) s (fun _ => Within conn stop ok)
      (fun _ => Within conn stop err) := by
  rw [onWorld, ends_within, h.1.1]
  exact ends_mono statement (fun _ _ hu => ⟨h.1,hu⟩) (fun _ _ hu => ⟨h.1,hu⟩)

theorem keeps_enter : Keeps (Within conn stop (Atomic old stop)) (enter (ι := ι)) := by
  intro s h
  rw [enter, ends_bind, ends_get, ends_ite]
  refine ⟨fun _ => h,fun _ => ?_⟩
  rw [ends_bind]
  exact ends_mono (ends_onSession h (ends_end h.2 (Or.inl rfl))) (fun _ _ hu => hu)
    (fun _ _ hu => hu)

theorem keeps_rollbackQuietly :
    Keeps (Within conn stop (Atomic old stop)) (rollbackQuietly (ι := ι)) := by
  intro s h
  rw [rollbackQuietly, ends_bind, ends_get, ends_tryExcept]
  apply ends_mono (ends_onSession h (ends_end h.2 (Or.inr rfl))) (fun _ _ hu => hu)
  intro e u hu
  split
  · exact hu
  · exact hu

def Advanced (old : List (Commit ι)) (stop : Int) (db : Database ι) : Prop :=
  Atomic old stop db ∧ ∀ t, db.transaction = some t → t.pending.advance = some stop

theorem ends_cdcCommit (h : Atomic old stop w.db) :
    Ends (executeOn conn (.cdcCommit stop)) w (fun _ u => Advanced old stop u.db)
      (fun _ u => Atomic old stop u.db) := by
  have answered : ∀ reply failure db, w.db.answer (.cdcCommit stop) reply = (failure, db) →
      Atomic old stop db ∧ (failure = none → Advanced old stop db) := by
    intro reply failure db answer
    cases open_ : w.db.transaction with
    | some t =>
      rcases Database.answer_change_inside { advance := some stop } reply open_ with
        ⟨_,done⟩ | ⟨_,_,failed,_⟩
      · rw [Statement.cdcCommit, done] at answer
        cases answer
        refine ⟨h,fun _ => ⟨h,?_⟩⟩
        intro t' same
        cases same
        rfl
      · rw [Statement.cdcCommit, failed] at answer
        cases answer
        exact ⟨h,fun no => by cases no⟩
    | none =>
      rw [Statement.cdcCommit, Database.answer_change open_, Database.put_autocommit open_] at answer
      cases answer
      have kept : Atomic old stop (if reply.raises.isNone || reply.took then
          { w.db with commits := w.db.commits ++ [{ advance := some stop }] } else w.db) := by
        split
        · exact atomic_snoc h (fun _ => rfl) w.db.transaction
        · exact h
      refine ⟨kept,fun _ => ⟨kept,?_⟩⟩
      intro t open'
      split at open' <;> cases open_.symm.trans open'
  exact ends_answered h (fun reply e db answer => (answered reply _ db answer).1)
    (fun reply db answer => (answered reply _ db answer).2 rfl)

theorem ends_commit (h : Advanced old stop w.db) :
    Ends (executeOn conn .commit) w (fun _ u => Atomic old stop u.db)
      (fun _ u => Atomic old stop u.db) := by
  have answered : ∀ reply failure db, w.db.answer .commit reply = (failure, db) →
      Atomic old stop db := by
    intro reply failure db answer
    rcases Database.answer_commit w.db reply with
      ⟨t,open_,done⟩ | ⟨e,still,failed⟩
    · rw [done] at answer
      cases answer
      exact atomic_snoc h.1 (fun _ => h.2 t open_) none
    · rw [failed] at answer
      cases answer
      exact h.1
  exact ends_answered h.1 (fun reply e db answer => answered reply _ db answer)
    (fun reply db answer => answered reply _ db answer)

theorem keeps_exit (c : Consumer) (raised : Option Exc) :
    Keeps (Within conn stop (Atomic old stop)) (exit (ι := ι) c raised) := by
  intro s h
  cases raised with
  | some e =>
    rw [exit, ends_bind, ends_modify]
    exact keeps_rollbackQuietly _ h
  | none =>
    rw [exit, ends_bind, ends_modify, ends_tryExcept]
    have failed : ∀ (e : Stop) (u : Session ι), Within conn stop (Atomic old stop) u →
        if caughtByException e then
          Ends (do rollbackQuietly; throw e : TxClient ι Unit) u
            (fun _ => Within conn stop (Atomic old stop))
            (fun _ => Within conn stop (Atomic old stop))
        else Within conn stop (Atomic old stop) u := by
      intro e u hu
      split
      · rw [ends_bind]
        exact ends_mono (keeps_rollbackQuietly u hu) (fun _ _ hv => hv) (fun _ _ hv => hv)
      · exact hu
    have advanced : Ends (commitSnapshotWithin c s.tx.connection s.tx.endSnapshot) s.world
        (fun _ u => Advanced old stop u.db) (fun _ u => Atomic old stop u.db) := by
      rw [h.1.2]
      exact ends_policy c.retryPolicy (fun u hu => ends_cdcCommit hu)
        (ends_sleep (ambient_db (Atomic old stop))) s.world h.2
    rw [ends_bind, ends_get, ends_bind, onWorld, ends_within]
    refine ends_mono advanced ?_ (fun e u hu => failed e _ ⟨h.1,hu⟩)
    intro _ u hu
    have within_ : Within conn stop (Advanced old stop)
        { s with tx := { s.tx with state := .closed }, world := u } := ⟨h.1,hu⟩
    exact ends_mono (ends_onSession within_ (ends_commit hu)) (fun _ _ hv => hv) failed

theorem ends_execute_clean (items : List ι) (h : Within conn stop (Atomic old stop) s)
    (clean : items ≠ [] → conn = s.world.db.live → s.world.db.transaction = none →
      takesEffect s.world.script = false) :
    Ends (execute items) s
      (fun _ => Within conn stop fun db =>
        Atomic old stop db ∧ (items ≠ [] → db.transaction ≠ none))
      (fun _ => Within conn stop (Atomic old stop)) := by
  rw [execute, ends_bind, ends_get]
  exact ends_onSession h (ends_change_clean { writes := items } h.2 clean)

theorem ends_executemany_inside {items : List ι}
    (h : Within conn stop (fun db => Atomic old stop db ∧ db.transaction ≠ none) s) :
    Ends (executemany items) s (fun _ => Within conn stop (Atomic old stop))
      (fun _ => Within conn stop (Atomic old stop)) := by
  induction items generalizing s with
  | nil => exact ⟨h.1,h.2.1⟩
  | cons item rest ih =>
    rw [executemany, ends_bind, execute, ends_bind, ends_get]
    exact ends_mono (ends_onSession h (ends_change_inside h.2.1 h.2.2)) (fun _ _ hu => ih hu)
      (fun _ _ hu => hu)

theorem ends_executemany_clean {items : List ι} (h : Within conn stop (Atomic old stop) s)
    (clean : items ≠ [] → conn = s.world.db.live → s.world.db.transaction = none →
      takesEffect s.world.script = false) :
    Ends (executemany items) s (fun _ => Within conn stop (Atomic old stop))
      (fun _ => Within conn stop (Atomic old stop)) := by
  cases items with
  | nil => exact h
  | cons item rest =>
    rw [executemany, ends_bind]
    have first := ends_execute_clean [item] h fun _ => clean (List.cons_ne_nil _ _)
    refine ends_mono first ?_ (fun _ _ hu => hu)
    intro _ u facts
    obtain ⟨same,atomic,open_⟩ := facts
    exact ends_executemany_inside ⟨same,atomic,open_ (List.cons_ne_nil _ _)⟩

theorem ends_execute_tears {items : List ι} (h : Within conn stop (Atomic old stop) s)
    (some_ : items ≠ []) (live : conn = s.world.db.live) (auto : s.world.db.transaction = none)
    (takes : takesEffect s.world.script = true) :
    Ends (execute items) s (fun _ => Within conn stop (Torn old stop))
      (fun _ => Within conn stop (Torn old stop)) := by
  rw [execute, ends_bind, ends_get]
  exact ends_onSession h (ends_change_tears { writes := items } h.2 some_
    (fun no => by cases no) live auto takes)

theorem ends_executemany_torn {items : List ι} (h : Within conn stop (Torn old stop) s) :
    Ends (executemany items) s (fun _ => Within conn stop (Torn old stop))
      (fun _ => Within conn stop (Torn old stop)) := by
  induction items generalizing s with
  | nil => exact h
  | cons item rest ih =>
    rw [executemany, ends_bind, execute, ends_bind, ends_get]
    exact ends_mono (ends_onSession h (ends_change_torn h.2)) (fun _ _ hu => ih hu)
      (fun _ _ hu => hu)

theorem ends_executemany_tears {items : List ι} (h : Within conn stop (Atomic old stop) s)
    (some_ : items ≠ []) (live : conn = s.world.db.live) (auto : s.world.db.transaction = none)
    (takes : takesEffect s.world.script = true) :
    Ends (executemany items) s (fun _ => Within conn stop (Torn old stop))
      (fun _ => Within conn stop (Torn old stop)) := by
  cases items with
  | nil => contradiction
  | cons item rest =>
    rw [executemany, ends_bind]
    exact ends_mono (ends_execute_tears h (List.cons_ne_nil _ _) live auto takes)
      (fun _ _ hu => ends_executemany_torn hu) (fun _ _ hu => hu)

theorem within_use {c : Consumer} {u : Use ι} {fact : Database ι → Prop}
    (called : Ends (u.call.run c) { s with world := { s.world with script := u.script } }
      (fun _ => Within conn stop fact) (fun _ => Within conn stop fact)) :
    Within conn stop fact (use c s u) := ends_final _ called

theorem use_atomic (c : Consumer) (u : Use ι) (h : Within conn stop (Atomic old stop) s)
    (clean : ¬ WritesOutside s u) : Within conn stop (Atomic old stop) (use c s u) := by
  have quiet : u.call.written ≠ [] → conn = s.world.db.live → s.world.db.transaction = none →
      takesEffect u.script = false := by
    intro some_ live auto
    rw [← Bool.not_eq_true]
    exact fun takes => clean ⟨some_,h.1.1.trans live,auto,takes⟩
  apply within_use
  cases call : u.call with
  | enter => exact keeps_enter _ h
  | exit raised => exact keeps_exit c raised _ h
  | execute items =>
    rw [call] at quiet
    exact ends_mono (ends_execute_clean items h quiet) (fun _ _ hu => ⟨hu.1,hu.2.1⟩) (fun _ _ hu => hu)
  | executemany items =>
    rw [call] at quiet
    exact ends_executemany_clean h quiet

theorem use_torn (c : Consumer) (u : Use ι) (h : Within conn stop (Atomic old stop) s)
    (outside : WritesOutside s u) : Within conn stop (Torn old stop) (use c s u) := by
  obtain ⟨some_,live,auto,takes⟩ := outside
  rw [h.1.1] at live
  apply within_use
  cases call : u.call with
  | enter => simp [call, Call.written] at some_
  | exit raised => simp [call, Call.written] at some_
  | execute items =>
    rw [call] at some_
    exact ends_execute_tears h some_ live auto takes
  | executemany items =>
    rw [call] at some_
    exact ends_executemany_tears h some_ live auto takes

/-- Whatever the order of calls, exceptions and retries: every write that becomes durable
    comes with the advance to the batch's end, if and only if no statement is executed
    while the connection is in autocommit. -/
theorem atomic_iff_no_write_outside (c : Consumer) (s : Session ι) (us : List (Use ι)) :
    (∀ t ∈ visited (use c) s us, Atomic s.world.db.commits s.tx.endSnapshot t.world.db) ↔
      EveryStep (use c) (fun t u => ¬ WritesOutside t u) s us := by
  refine safe_iff_clean (Within s.tx.connection s.tx.endSnapshot
    (Atomic s.world.db.commits s.tx.endSnapshot)) ?_ (fun t h => h.2) ?_ ?_
  · exact fun t u h clean => use_atomic c u h clean
  · exact fun t u h safe outside => torn_not_atomic (use_torn c u h outside).2 safe
  · exact ⟨⟨rfl,rfl⟩,[],by simp⟩

def freshSession : Session Nat where
  tx := { connection := 0, endSnapshot := 5 }
  world := { log := .bare 5, db := { start := 4 } }

theorem execute_before_enter_not_atomic :
    ¬ ∀ (s : Session Nat) (us : List (Use Nat)), s.tx.state = .fresh →
      s.world.db.transaction = none →
      ∀ t ∈ visited (use .orders) s us,
        Atomic s.world.db.commits s.tx.endSnapshot t.world.db := by
  intro all
  have safe := all freshSession [⟨.execute [7],[{}]⟩] rfl rfl
    (use .orders freshSession ⟨.execute [7],[{}]⟩) (by simp [visited])
  obtain ⟨new,same,good⟩ := safe
  have written : (use .orders freshSession ⟨.execute [7],[{}]⟩).world.db.commits =
      [{ writes := [7] }] := rfl
  rw [written] at same
  have member : { writes := [7] } ∈ new := by
    rw [show new = [{ writes := [7] }] from same.symm]
    exact List.mem_singleton.mpr rfl
  cases good _ member (List.cons_ne_nil _ _)

end CdcAtomicity
