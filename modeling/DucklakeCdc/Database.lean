import DucklakeCdc.RetryPolicy

/-!
A database connection as the client relies on it: autocommit outside a transaction,
one commit for everything inside it, no effect of a failed COMMIT, no BEGIN inside an
open transaction, nothing but ROLLBACK after an aborted statement. The durable history
is the list of commits; the consumer's cursor is part of it.
-/
namespace CdcDatabase
open CdcRetry

structure Commit (ι : Type) where
  writes : List ι := []
  advance : Option Int := none
  deriving DecidableEq, Repr

structure Transaction (ι : Type) where
  pending : Commit ι := {}
  aborted : Bool := false
  deriving DecidableEq, Repr

/-- `live` is the connection that is open now; every other one has been closed. -/
structure Database (ι : Type) where
  start : Int
  commits : List (Commit ι) := []
  transaction : Option (Transaction ι) := none
  live : Nat := 0
  deriving DecidableEq, Repr

inductive Statement (ι : Type) where
  | begin
  | commit
  | rollback
  | change (made : Commit ι)
  deriving DecidableEq, Repr

/-- How the connection meets a statement. One that raises may have taken effect before,
    and may leave its transaction aborted; `refusal` is what it raises by itself. -/
structure Reply where
  raises : Option Exc := none
  took : Bool := false
  aborts : Bool := false
  refusal : Exc := .raised .otherException "TransactionContext Error"
  deriving DecidableEq, Repr

variable {ι : Type}

def Statement.write (items : List ι) : Statement ι := .change { writes := items }

def Statement.cdcCommit (snapshot : Int) : Statement ι := .change { advance := some snapshot }

def Commit.then (first second : Commit ι) : Commit ι where
  writes := first.writes ++ second.writes
  advance := second.advance <|> first.advance

namespace Database

def durable (db : Database ι) : Int :=
  (db.commits.filterMap Commit.advance).getLast?.getD db.start

def visible (db : Database ι) : Int :=
  (db.transaction.bind fun t => t.pending.advance).getD db.durable

def sink (db : Database ι) : List ι := db.commits.flatMap Commit.writes

def put (db : Database ι) (change : Commit ι) : Database ι :=
  match db.transaction with
  | some t => { db with transaction := some { t with pending := t.pending.then change } }
  | none => { db with commits := db.commits ++ [change] }

/-- `none` where the database refuses the statement. -/
def perform (db : Database ι) : Statement ι → Option (Database ι)
  | .begin =>
    match db.transaction with
    | some _ => none
    | none => some { db with transaction := some {} }
  | .commit =>
    match db.transaction with
    | some t =>
      if t.aborted then none
      else some { db with commits := db.commits ++ [t.pending], transaction := none }
    | none => none
  | .rollback => db.transaction.map fun _ => { db with transaction := none }
  | .change made =>
    if db.transaction.any Transaction.aborted then none else some (db.put made)

def fail (db : Database ι) (stmt : Statement ι) (reply : Reply) : Database ι :=
  match stmt with
  | .commit | .rollback => if reply.took then { db with transaction := none } else db
  | _ =>
    let after := if reply.took then (db.perform stmt).getD db else db
    { after with
      transaction := after.transaction.map fun t =>
        { t with aborted := t.aborted || reply.aborts } }

def answer (db : Database ι) (stmt : Statement ι) (reply : Reply) :
    Option Exc × Database ι :=
  match reply.raises, db.perform stmt with
  | none, some after => (none, after)
  | none, none => (some reply.refusal, db.fail stmt reply)
  | some e, _ => (some e, db.fail stmt reply)

def answerOn (db : Database ι) (connection : Nat) (stmt : Statement ι) (reply : Reply) :
    Option Exc × Database ι :=
  if connection = db.live then db.answer stmt reply
  else (some (reply.raises.getD reply.refusal), db)

/-- Closing a connection discards its open transaction. -/
def reconnect (db : Database ι) : Database ι :=
  { db with transaction := none, live := db.live + 1 }

variable {db : Database ι} {change : Commit ι} {reply : Reply}

theorem visible_autocommit (auto : db.transaction = none) : db.visible = db.durable := by
  simp [visible, auto]

theorem fail_unaffected (auto : db.transaction = none) (stmt : Statement ι)
    (untouched : reply.took = false) : db.fail stmt reply = db := by
  obtain ⟨start,commits,transaction,live⟩ := db
  obtain rfl : transaction = none := auto
  cases stmt <;> simp [fail, untouched]

theorem put_autocommit (auto : db.transaction = none) :
    db.put change = { db with commits := db.commits ++ [change] } := by
  simp [put, auto]

@[simp] theorem visible_put_advance (snapshot : Int) :
    (db.put { advance := some snapshot }).visible = snapshot := by
  cases open_ : db.transaction <;> simp [put, open_, visible, durable, Commit.then]

theorem answer_change (auto : db.transaction = none) :
    db.answer (.change change) reply = (reply.raises,
      if reply.raises.isNone || reply.took then db.put change else db) := by
  have performed : db.perform (.change change) = some (db.put change) := by simp [perform, auto]
  cases raises : reply.raises with
  | none => simp [answer, raises, performed]
  | some e =>
    cases took : reply.took with
    | false => simp [answer, raises, fail_unaffected auto _ took]
    | true => simp [answer, raises, fail, performed, took, auto, put_autocommit auto]

variable {t : Transaction ι}

theorem put_inside (open_ : db.transaction = some t) :
    db.put change = { db with transaction := some { t with pending := t.pending.then change } } := by
  simp [put, open_]

theorem answer_change_inside (change : Commit ι) (reply : Reply) (open_ : db.transaction = some t) :
    (t.aborted = false ∧ db.answer (.change change) reply =
      (none, { db with transaction := some { t with pending := t.pending.then change } })) ∨
    ∃ e t', db.answer (.change change) reply = (some e, { db with transaction := some t' }) ∧
      (t'.pending = t.pending ∨ t'.pending = t.pending.then change) := by
  have failed : ∃ t', db.fail (.change change) reply = { db with transaction := some t' } ∧
      (t'.pending = t.pending ∨ t'.pending = t.pending.then change) := by
    cases took : reply.took with
    | false =>
      exact ⟨{ t with aborted := t.aborted || reply.aborts },by simp [fail, took, open_],Or.inl rfl⟩
    | true =>
      cases aborted : t.aborted with
      | false =>
        exact ⟨⟨t.pending.then change,reply.aborts⟩,
          by simp [fail, took, perform, put_inside open_, open_, aborted],Or.inr rfl⟩
      | true =>
        exact ⟨{ t with aborted := true },by simp [fail, took, perform, open_, aborted],Or.inl rfl⟩
  obtain ⟨t',after,pending⟩ := failed
  cases raises : reply.raises with
  | some e => exact Or.inr ⟨e,t',by simp [answer, raises, after],pending⟩
  | none =>
    cases aborted : t.aborted with
    | false => exact Or.inl ⟨rfl,by simp [answer, raises, perform, put_inside open_, open_, aborted]⟩
    | true =>
      have refused : db.perform (.change change) = none := by simp [perform, open_, aborted]
      exact Or.inr ⟨reply.refusal,t',by simp [answer, raises, refused, after],pending⟩

theorem visible_answer (db : Database ι) (snapshot : Int) (reply : Reply) :
    (db.answer (.cdcCommit snapshot) reply).2.visible = db.visible ∨
      (db.answer (.cdcCommit snapshot) reply).2.visible = snapshot := by
  rw [Statement.cdcCommit]
  cases open_ : db.transaction with
  | none =>
    rw [answer_change open_]
    simp only
    split
    · exact Or.inr (visible_put_advance snapshot)
    · exact Or.inl rfl
  | some t =>
    rcases answer_change_inside { advance := some snapshot } reply open_ with
      ⟨_,done⟩ | ⟨_,t',failed,still | more⟩
    · rw [done]
      exact Or.inr rfl
    · rw [failed]
      left
      simp [visible, open_, still, durable]
    · rw [failed]
      right
      simp [visible, more, Commit.then]

theorem fail_end (db : Database ι) (reply : Reply) (stmt : Statement ι)
    (ends : stmt = .commit ∨ stmt = .rollback) :
    ∃ still, db.fail stmt reply = { db with transaction := still } := by
  have either : db.fail stmt reply = if reply.took then { db with transaction := none } else db := by
    rcases ends with rfl | rfl <;> rfl
  rw [either]
  split
  · exact ⟨none,rfl⟩
  · exact ⟨db.transaction,rfl⟩

theorem answer_begin (db : Database ι) (reply : Reply) : (db.transaction = none ∧
      db.answer .begin reply = (none, { db with transaction := some {} })) ∨
    ∃ e still, db.answer .begin reply = (some e, { db with transaction := still }) ∧
      (db.transaction ≠ none → still ≠ none) := by
  cases open_ : db.transaction with
  | none =>
    cases raises : reply.raises with
    | none => exact Or.inl ⟨rfl,by simp [answer, raises, perform, open_]⟩
    | some e =>
      refine Or.inr ⟨e,if reply.took then some ⟨{},reply.aborts⟩ else none,?_,by simp⟩
      cases took : reply.took <;> simp [answer, raises, fail, perform, took, open_]
  | some t =>
    refine Or.inr ⟨reply.raises.getD reply.refusal,
      some { t with aborted := t.aborted || reply.aborts },?_,by simp⟩
    cases raises : reply.raises <;> simp [answer, raises, fail, perform, open_]

theorem answer_commit (db : Database ι) (reply : Reply) :
    (∃ t, db.transaction = some t ∧ db.answer .commit reply =
      (none, { db with commits := db.commits ++ [t.pending], transaction := none })) ∨
    ∃ e still, db.answer .commit reply = (some e, { db with transaction := still }) := by
  obtain ⟨still,failed⟩ := fail_end db reply .commit (Or.inl rfl)
  cases raises : reply.raises with
  | some e => exact Or.inr ⟨e,still,by simp [answer, raises, failed]⟩
  | none =>
    cases performed : db.perform .commit with
    | none => exact Or.inr ⟨reply.refusal,still,by simp [answer, raises, performed, failed]⟩
    | some after =>
      have answered : db.answer .commit reply = (none, after) := by
        simp [answer, raises, performed]
      cases open_ : db.transaction with
      | none => simp [perform, open_] at performed
      | some t =>
        cases aborted : t.aborted with
        | true => simp [perform, open_, aborted] at performed
        | false =>
          simp only [perform, open_, aborted, Bool.false_eq_true, if_false,
            Option.some.injEq] at performed
          exact Or.inl ⟨t,rfl,by rw [answered, performed]⟩

theorem answer_rollback (db : Database ι) (reply : Reply) :
    ∃ raised still, db.answer .rollback reply = (raised, { db with transaction := still }) := by
  obtain ⟨still,failed⟩ := fail_end db reply .rollback (Or.inr rfl)
  cases raises : reply.raises with
  | some e => exact ⟨some e,still,by simp [answer, raises, failed]⟩
  | none =>
    cases open_ : db.transaction with
    | none =>
      exact ⟨some reply.refusal,still,by simp [answer, raises, perform, open_, failed]⟩
    | some t => exact ⟨none,none,by simp [answer, raises, perform, open_]⟩

end Database
end CdcDatabase
