import DucklakeCdc.ConsumerLifecycle

/-!
Opening a consumer again. The client of the first `open()` is kept for good, and with it
the connection it was built on; after `close()` that connection is closed.
-/
namespace CdcReopening
open Programs CdcRetry CdcLifecycle
variable {κ δ : Type}

/-- After any calls, whichever failed: only derived connections are closed, and none that
    is still to be derived. -/
structure Bounded (s : Lifecycle κ δ) : Prop where
  held : ∀ connection, s.derivedConnection = some connection →
    ∃ n < s.derivedCount, connection = .derived n
  closed : ∀ connection ∈ s.closed, ∃ n < s.derivedCount, connection = .derived n

variable {c : Consumer κ} {r : Replies κ δ} {s : Lifecycle κ δ}

theorem bounded_same {t : Lifecycle κ δ} (h : Bounded s)
    (derived : t.derivedConnection = s.derivedConnection) (closed : t.closed = s.closed)
    (count : t.derivedCount = s.derivedCount) : Bounded t := by
  constructor
  · rw [derived, count]
    exact h.held
  · rw [closed, count]
    exact h.closed

theorem bounded_released (h : Bounded s) : Bounded (released s) := by
  constructor
  · intro connection held
    cases held
  · intro connection member
    rcases List.mem_append.mp member with old | last
    · exact h.closed connection old
    · exact h.held connection (Option.mem_toList.mp last)

theorem bounded_drawn (h : Bounded s) : Bounded (drawn c s).2 := by
  unfold drawn
  split
  · exact bounded_same h rfl rfl rfl
  · constructor
    · intro connection held
      cases held
      exact ⟨s.derivedCount,Nat.lt_succ_self _,rfl⟩
    · intro connection member
      obtain ⟨n,below,same⟩ := h.closed connection member
      exact ⟨n,Nat.lt_succ_of_lt below,same⟩

theorem bounded_guarded (h : Bounded s) (connection : Connection) :
    Ends (guarded c r connection) s (fun _ => Bounded) (fun _ => Bounded) := by
  apply ends_guarded
  · intro db _
    exact bounded_same h rfl rfl rfl
  · intro e db events _ _ _
    apply bounded_released
    exact bounded_same h rfl rfl rfl
  · intro e db events _ _ _
    exact bounded_same h rfl rfl rfl

theorem bounded_step (h : Bounded s) (call : Call κ δ) : Bounded (step c s call) := by
  apply ends_final
  cases call with
  | closes r =>
    apply ends_exit
    · intro _
      have kept : Bounded (swept c { s with opened := false }) :=
        bounded_released (bounded_same h rfl rfl rfl)
      exact ⟨kept,fun _ => kept⟩
    · intro e _
      exact bounded_same h rfl rfl rfl
  | opens r =>
    cases built : s.client with
    | none =>
      apply ends_enter_first built
      · intro e _ _
        exact h
      · intro e _ _
        exact bounded_drawn h
      · intro _ _
        apply bounded_guarded
        exact bounded_same (bounded_drawn h) rfl rfl rfl
    | some connection =>
      apply ends_enter_again built
      apply bounded_guarded
      exact bounded_same h rfl rfl rfl

def after (c : Consumer κ) (db : δ) (calls : List (Call κ δ)) : Lifecycle κ δ :=
  calls.foldl (step c) (c.fresh db)

theorem bounded_run (h : Bounded s) (calls : List (Call κ δ)) :
    Bounded (calls.foldl (step c) s) := by
  induction calls generalizing s with
  | nil => exact h
  | cons call rest ih => exact ih (bounded_step h call)

theorem bounded_after (c : Consumer κ) (db : δ) (calls : List (Call κ δ)) :
    Bounded (after c db calls) := by
  apply bounded_run
  constructor
  · intro connection held
    cases held
  · intro connection member
    cases member

/-- The client is built once and kept. -/
def KeepsClient (c : Consumer κ) (s t : Lifecycle κ δ) : Prop :=
  t.client = s.client ∨ s.client = none ∧ t.client = some (drawn c s).1

theorem client_step (s : Lifecycle κ δ) (call : Call κ δ) : KeepsClient c s (step c s call) := by
  apply ends_final
  cases call with
  | closes r =>
    apply ends_exit
    · intro _
      exact ⟨Or.inl rfl,fun _ => Or.inl rfl⟩
    · intro e _
      exact Or.inl rfl
  | opens r =>
    cases built : s.client with
    | none =>
      apply ends_enter_first built
      · intro e _ _
        exact Or.inl rfl
      · intro e _ _
        left
        unfold drawn
        split <;> rfl
      · intro _ _
        apply ends_guarded
        · intro db _
          exact Or.inr ⟨built,rfl⟩
        · intro e db events _ _ _
          exact Or.inr ⟨built,rfl⟩
        · intro e db events _ _ _
          exact Or.inr ⟨built,rfl⟩
    | some connection =>
      apply ends_enter_again built
      apply ends_guarded
      · intro db _
        exact Or.inl rfl
      · intro e db events _ _ _
        exact Or.inl rfl
      · intro e db events _ _ _
        exact Or.inl rfl

theorem client_given (given : c.wiring = .connection) (calls : List (Call κ δ))
    (start : ∀ connection, s.client = some connection → connection = .given) :
    ∀ connection, (calls.foldl (step c) s).client = some connection → connection = .given := by
  induction calls generalizing s with
  | nil => exact start
  | cons call rest ih =>
    apply ih
    intro connection built
    rcases client_step s call with same | ⟨_,new⟩
    · exact start connection (same.symm.trans built)
    · rw [new] at built
      cases built
      simp [drawn, given]

theorem given_stays_open (given : c.wiring = .connection) (db : δ) (calls : List (Call κ δ))
    {connection : Connection} (built : (after c db calls).client = some connection) :
    connection ∉ (after c db calls).closed := by
  have same : connection = .given := by
    apply client_given given calls _ connection built
    intro other client
    simp [Consumer.fresh, given] at client
  intro member
  obtain ⟨n,_,derived⟩ := (bounded_after c db calls).closed connection member
  rw [same] at derived
  cases derived

/-- `open()` returns, and the client listens and commits on a connection that is open. -/
def Opens (c : Consumer κ) (r : Replies κ δ) (s : Lifecycle κ δ) : Prop :=
  Ends (enter c r) s
    (fun _ t => t.opened = true ∧ ∃ connection, t.client = some connection ∧
      t.connection = some connection ∧ connection ∉ t.closed)
    (fun _ _ => False)

theorem drawn_live (h : Bounded s) : (drawn c s).1 ∉ (drawn c s).2.closed := by
  intro member
  unfold drawn at member
  split at member
  · obtain ⟨n,_,same⟩ := h.closed _ member
    cases same
  · obtain ⟨n,below,same⟩ := h.closed _ member
    cases same
    omega

theorem drawn_db : (drawn c s).2.db = s.db := by
  unfold drawn
  split <;> rfl

def Ready (c : Consumer κ) (r : Replies κ δ) (db : δ) : Prop :=
  (c.wiring = .connection ∨ r.derive = none) ∧ r.prewarm = none ∧ Accepts c r db

theorem ready_of_fresh {db : δ} (ours : c.wiring ≠ .client)
    (fresh : returns (enter c r) (c.fresh db) = true) : Ready c r db := by
  have unbuilt : (c.fresh db).client = none := by simp [Consumer.fresh, ours]
  have ends : Ends (enter c r) (c.fresh db) (fun _ _ => Ready c r db) (fun _ _ => True) := by
    apply ends_enter_first unbuilt
    · intro e _ _
      trivial
    · intro e _ _
      trivial
    · intro warm drew
      apply ends_guarded
      · intro _ success
        have accepts : Accepts c r (drawn c (c.fresh db)).2.db := success.2
        rw [drawn_db] at accepts
        exact ⟨drew,warm,accepts⟩
      · intro _ _ _ _ _ _
        trivial
      · intro _ _ _ _ _ _
        trivial
  obtain ⟨_,_,ready,_⟩ := ends_returnsWith ends fresh
  exact ready

theorem opens_first (h : Bounded s) (unbuilt : s.client = none) (ready : Ready c r s.db) :
    Opens c r s := by
  obtain ⟨drew,warm,accepts⟩ := ready
  have success : Succeeds c r (drawn c s).1
      { (drawn c s).2 with client := some (drawn c s).1 } := by
    refine ⟨drawn_live h,?_⟩
    change Accepts c r (drawn c s).2.db
    rw [drawn_db]
    exact accepts
  apply ends_enter_first unbuilt
  · intro e refused not_given
    rw [drew.resolve_left not_given] at refused
    cases refused
  · intro e cold _
    rw [warm] at cold
    cases cold
  · intro _ _
    apply ends_guarded
    · intro db _
      refine ⟨rfl,(drawn c s).1,rfl,?_,drawn_live h⟩
      change (drawn c s).2.connection = _
      unfold drawn
      split <;> rfl
    · intro e db events failed _ _
      exact failed success
    · intro e db events failed _ _
      exact failed success

theorem opens_again_iff {connection : Connection} (built : s.client = some connection)
    (accepts : Accepts c r s.db) : Opens c r s ↔ connection ∉ s.closed := by
  constructor
  · intro opens shut
    have fails : Ends (enter c r) s (fun _ _ => False) (fun _ _ => True) := by
      apply ends_enter_again built
      apply ends_guarded
      · intro db success
        exact success.1 shut
      · intro _ _ _ _ _ _
        trivial
      · intro _ _ _ _ _ _
        trivial
    rcases ends_cases (ends_and opens fails) with ⟨_,_,_,_,refused⟩ | ⟨_,_,_,opened,_⟩
    · exact refused
    · exact opened
  · intro live
    apply ends_enter_again built
    apply ends_guarded
    · intro db _
      exact ⟨rfl,connection,built,rfl,live⟩
    · intro e db events failed _ _
      exact failed ⟨live,accepts⟩
    · intro e db events failed _ _
      exact failed ⟨live,accepts⟩

/-- Where a fresh consumer would open, one that was used before opens exactly if the
    connection of the client it kept, if any, is still open. -/
theorem reopens_iff_connection_live (c : Consumer κ) (ours : c.wiring ≠ .client) (db : δ)
    (calls : List (Call κ δ)) (r : Replies κ δ)
    (fresh : returns (enter c r) (c.fresh (after c db calls).db) = true) :
    Opens c r (after c db calls) ↔
      ∀ connection, (after c db calls).client = some connection →
        connection ∉ (after c db calls).closed := by
  have bounded := bounded_after c db calls
  have ready := ready_of_fresh ours fresh
  cases built : (after c db calls).client with
  | none =>
    constructor
    · intro _ connection no
      cases no
    · intro _
      exact opens_first bounded built ready
  | some connection =>
    rw [opens_again_iff built ready.2.2]
    constructor
    · intro live other same
      cases same
      exact live
    · intro live
      exact live connection rfl

def bare : Consumer Nat := {}

def coldOnce : List (Call Nat Unit) := [.opens { prewarm := some (.raised .runtimeError "") }]

theorem reopens_iff_live_cold :
    Opens bare {} (after bare () coldOnce) ↔
      ∀ connection, (after bare () coldOnce).client = some connection →
        connection ∉ (after bare () coldOnce).closed :=
  reopens_iff_connection_live bare (by decide) () coldOnce {} (by decide +kernel)

def closedOnce : List (Call Nat Unit) := [.opens {},.closes {}]

/-- Opened and closed once, a consumer that derives its connection does not open again. -/
theorem closed_consumer_stays_closed :
    (after bare () closedOnce).opened = false ∧
      returns (enter bare {}) (bare.fresh (after bare () closedOnce).db) = true ∧
      ¬ Opens bare {} (after bare () closedOnce) := by
  refine ⟨by decide +kernel,by decide +kernel,?_⟩
  intro opens
  have returned : returns (enter bare {}) (after bare () closedOnce) = true := by
    apply returns_of_ends
    exact ends_mono opens (fun _ _ _ => trivial) (fun _ _ no => no)
  have raised : returns (enter bare {}) (after bare () closedOnce) = false := by decide +kernel
  rw [returned] at raised
  contradiction

end CdcReopening
