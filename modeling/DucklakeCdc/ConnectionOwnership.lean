import DucklakeCdc.ConsumerLifecycle
import DucklakeCdc.Histories

/-!
Who owns the derived connections. An opened consumer should hold one that is open, a
closed one none; the steps that break this are a failure before the client is there, a
failed `open()` of a consumer that is already open, and a sink that stops the sweep.
-/
namespace CdcOwnership
open Programs CdcRetry CdcLifecycle Histories
variable {κ δ : Type}

structure Owned (s : Lifecycle κ δ) : Prop where
  opened : s.opened = true → ∃ n, s.connection = some (.derived n) ∧ .derived n ∉ s.closed
  idle : s.opened = false → ∀ n < s.derivedCount, .derived n ∈ s.closed
  lake : .lake ∉ s.closed

def Holds (s : Lifecycle κ δ) (n : Nat) : Prop :=
  n < s.derivedCount ∧ s.client = some (.derived n) ∧ s.connection = some (.derived n) ∧
    s.derivedConnection = some (.derived n) ∧ .derived n ∉ s.closed ∧
    ∀ m < s.derivedCount, m ≠ n → .derived m ∈ s.closed

def Left (s : Lifecycle κ δ) : Prop :=
  s.derivedConnection = none ∧ (∀ n < s.derivedCount, .derived n ∈ s.closed) ∧
    ∀ connection, s.client = some connection → connection ∈ s.closed

structure Inv (s : Lifecycle κ δ) : Prop where
  numbered : ∀ connection ∈ s.closed, ∃ n < s.derivedCount, connection = .derived n
  opened : s.opened = true → ∃ n, Holds s n
  idle : s.opened = false → Left s

theorem lake_open {s : Lifecycle κ δ} (h : Inv s) : .lake ∉ s.closed := by
  intro member
  obtain ⟨n,_,same⟩ := h.numbered _ member
  cases same

theorem owned_of_inv {s : Lifecycle κ δ} (h : Inv s) : Owned s := by
  constructor
  · intro opened
    obtain ⟨n,_,_,connection,_,live,_⟩ := h.opened opened
    exact ⟨n,connection,live⟩
  · intro idle
    exact (h.idle idle).2.1
  · exact lake_open h

/-- Of an idle consumer without a client: nothing is derived, or all of it can be
    closed again. Of an open one: the new attempt succeeds, or a sink stops the sweep
    before the connection is closed. -/
def CleanOpen (c : Consumer κ) (s : Lifecycle κ δ) (r : Replies κ δ) : Prop :=
  (s.opened = true → Accepts c r s.db ∨ SweepInterrupted c r) ∧
    (s.opened = false → s.client = none →
      r.derive ≠ none ∨ r.prewarm = none ∧ (Accepts c r s.db ∨ ¬ SweepInterrupted c r))

def Clean (c : Consumer κ) (s : Lifecycle κ δ) : Call κ δ → Prop
  | .opens r => CleanOpen c s r
  | .closes r => s.opened = true → ¬ SweepInterrupted c r

/-- What one step has to show: a clean one keeps the invariant, any other breaks the
    promise. -/
def Decides (clean : Prop) (t : Lifecycle κ δ) : Prop := (clean → Inv t) ∧ (Owned t → clean)

variable {c : Consumer κ} {r : Replies κ δ} {s : Lifecycle κ δ}

theorem decides_kept {clean : Prop} {t : Lifecycle κ δ} (kept : Inv t) (is_clean : clean) :
    Decides clean t := ⟨fun _ => kept,fun _ => is_clean⟩

theorem decides_broken {clean : Prop} {t : Lifecycle κ δ} (broken : ¬ Owned t)
    (not_clean : ¬ clean) : Decides clean t :=
  ⟨fun h => absurd h not_clean,fun h => absurd h broken⟩

theorem unused_number (h : Inv s) : .derived s.derivedCount ∉ s.closed := by
  intro member
  obtain ⟨n,below,same⟩ := h.numbered _ member
  cases same
  omega

theorem not_owned_leaked {t : Lifecycle κ δ} {n : Nat} (idle : t.opened = false)
    (below : n < t.derivedCount) (live : .derived n ∉ t.closed) : ¬ Owned t :=
  fun owned => live (owned.idle idle n below)

def withNew (s : Lifecycle κ δ) : Lifecycle κ δ :=
  { s with
    derivedCount := s.derivedCount + 1
    connection := some (.derived s.derivedCount)
    derivedConnection := some (.derived s.derivedCount)
    client := some (.derived s.derivedCount) }

theorem drawn_derived (derives : c.wiring = .derives) :
    (drawn c s).1 = .derived s.derivedCount ∧
      { (drawn c s).2 with client := some (.derived s.derivedCount) } = withNew s ∧
      (drawn c s).2.opened = s.opened ∧ (drawn c s).2.closed = s.closed ∧
      (drawn c s).2.derivedCount = s.derivedCount + 1 := by
  simp [drawn, derives, withNew]

theorem numbered_new (h : Inv s) :
    ∀ connection ∈ s.closed, ∃ n < s.derivedCount + 1, connection = .derived n := by
  intro connection member
  obtain ⟨n,below,same⟩ := h.numbered connection member
  exact ⟨n,by omega,same⟩

theorem inv_opened_new (h : Inv s) (idle : s.opened = false) (db : δ)
    (events : List (Brackets.Event κ)) :
    Inv { withNew s with db := db, sinkLog := s.sinkLog ++ events, opened := true } := by
  constructor
  · exact numbered_new h
  · intro _
    refine ⟨s.derivedCount,Nat.lt_succ_self _,rfl,rfl,rfl,unused_number h,?_⟩
    intro m below other
    have at_most : m < s.derivedCount + 1 := below
    exact (h.idle idle).2.1 m (by omega)
  · intro opened
    cases opened

theorem inv_swept_new (h : Inv s) (idle : s.opened = false) (db : δ)
    (events : List (Brackets.Event κ)) :
    Inv (swept c { withNew s with db := db, sinkLog := s.sinkLog ++ events }) := by
  constructor
  · intro connection member
    rcases List.mem_append.mp member with old | last
    · exact numbered_new h connection old
    · exact ⟨s.derivedCount,Nat.lt_succ_self _,List.mem_singleton.mp last⟩
  · intro opened
    rw [show s.opened = true from opened] at idle
    contradiction
  · intro _
    refine ⟨rfl,?_,?_⟩
    · intro n below
      have at_most : n < s.derivedCount + 1 := below
      apply List.mem_append.mpr
      by_cases earlier : n < s.derivedCount
      · left
        exact (h.idle idle).2.1 n earlier
      · right
        obtain rfl : n = s.derivedCount := by omega
        exact List.mem_singleton.mpr rfl
    · intro connection built
      cases built
      exact List.mem_append.mpr (Or.inr (List.mem_singleton.mpr rfl))

theorem decides_enter_first (derives : c.wiring = .derives) (h : Inv s) (idle : s.opened = false)
    (unbuilt : s.client = none) :
    Ends (enter c r) s (fun _ => Decides (CleanOpen c s r)) (fun _ => Decides (CleanOpen c s r)) := by
  have clean_iff : CleanOpen c s r ↔
      r.derive ≠ none ∨ r.prewarm = none ∧ (Accepts c r s.db ∨ ¬ SweepInterrupted c r) := by
    simp [CleanOpen, idle, unbuilt]
  have not_given : c.wiring ≠ .connection := by
    rw [derives]
    decide
  obtain ⟨connection,built,still,closed,count⟩ := drawn_derived (s := s) derives
  apply ends_enter_first unbuilt
  · intro e refused _
    apply decides_kept h
    rw [clean_iff, refused]
    left
    exact Option.some_ne_none e
  · intro e cold drew
    have drew := drew.resolve_left not_given
    apply decides_broken
    · apply not_owned_leaked (still.trans idle) (by rw [count]; exact Nat.lt_succ_self s.derivedCount)
      rw [closed]
      exact unused_number h
    · rw [clean_iff, cold, drew]
      simp
  · intro warm drew
    have drew := drew.resolve_left not_given
    rw [connection, built]
    apply ends_guarded
    · intro db success
      apply decides_kept (inv_opened_new h idle db _)
      rw [clean_iff]
      exact Or.inr ⟨warm,Or.inl success.2⟩
    · intro e db events _ _ quiet
      apply decides_kept (inv_swept_new h idle db events)
      rw [clean_iff]
      exact Or.inr ⟨warm,Or.inr quiet⟩
    · intro e db events failed _ interrupted
      apply decides_broken
      · exact not_owned_leaked idle (Nat.lt_succ_self s.derivedCount) (unused_number h)
      · rw [clean_iff]
        rintro (refused | ⟨_,accepts | quiet⟩)
        · exact refused drew
        · exact failed ⟨unused_number h,accepts⟩
        · exact quiet interrupted

theorem inv_idle {t : Lifecycle κ δ} (h : Inv s) (idle : s.opened = false)
    (closed : t.closed = s.closed) (count : t.derivedCount = s.derivedCount)
    (still : t.opened = false) (derived : t.derivedConnection = none)
    (client : t.client = s.client) : Inv t := by
  obtain ⟨_,all_closed,client_closed⟩ := h.idle idle
  constructor
  · rw [closed, count]
    exact h.numbered
  · intro opened
    rw [still] at opened
    contradiction
  · intro _
    refine ⟨derived,?_,?_⟩
    · rw [closed, count]
      exact all_closed
    · rw [closed, client]
      exact client_closed

theorem decides_enter_idle (h : Inv s) (idle : s.opened = false) {connection : Connection}
    (built : s.client = some connection) :
    Ends (enter c r) s (fun _ => Decides (CleanOpen c s r)) (fun _ => Decides (CleanOpen c s r)) := by
  obtain ⟨none_derived,_,client_closed⟩ := h.idle idle
  have is_clean : CleanOpen c s r := by
    constructor
    · intro opened
      rw [idle] at opened
      contradiction
    · intro _ unbuilt
      rw [built] at unbuilt
      contradiction
  have shut := client_closed connection built
  apply ends_enter_again built
  apply ends_guarded
  · intro db success
    exact absurd shut success.1
  · intro e db events _ _ _
    apply decides_kept _ is_clean
    apply inv_idle h idle
    · simp [swept, released, logged, none_derived]
    · rfl
    · exact idle
    · rfl
    · rfl
  · intro e db events _ _ _
    apply decides_kept _ is_clean
    exact inv_idle h idle rfl rfl idle none_derived rfl

theorem inv_busy {t : Lifecycle κ δ} (h : Inv s) {n : Nat} (holds : Holds s n)
    (closed : t.closed = s.closed) (count : t.derivedCount = s.derivedCount)
    (opened : t.opened = true) (client : t.client = s.client)
    (connection : t.connection = s.connection)
    (derived : t.derivedConnection = s.derivedConnection) : Inv t := by
  constructor
  · rw [closed, count]
    exact h.numbered
  · intro _
    refine ⟨n,?_⟩
    unfold Holds
    rw [closed, count, client, connection, derived]
    exact holds
  · intro idle
    rw [opened] at idle
    contradiction

theorem decides_enter_busy (h : Inv s) (opened : s.opened = true) :
    Ends (enter c r) s (fun _ => Decides (CleanOpen c s r)) (fun _ => Decides (CleanOpen c s r)) := by
  obtain ⟨n,holds⟩ := h.opened opened
  obtain ⟨below,client,connection,derived,live,_⟩ := id holds
  have clean_iff : CleanOpen c s r ↔ Accepts c r s.db ∨ SweepInterrupted c r := by
    simp [CleanOpen, opened]
  apply ends_enter_again client
  apply ends_guarded
  · intro db success
    apply decides_kept
    · exact inv_busy h holds rfl rfl rfl rfl connection.symm rfl
    · rw [clean_iff]
      exact Or.inl success.2
  · intro e db events failed _ quiet
    apply decides_broken
    · intro owned
      obtain ⟨m,same,open_⟩ := owned.opened opened
      have same : Connection.derived n = .derived m := Option.some.inj same
      apply open_
      rw [← same]
      simp [swept, released, logged, derived]
    · rw [clean_iff]
      rintro (accepts | interrupted)
      · exact failed ⟨live,accepts⟩
      · exact quiet interrupted
  · intro e db events _ _ interrupted
    apply decides_kept
    · exact inv_busy h holds rfl rfl opened rfl connection.symm rfl
    · rw [clean_iff]
      exact Or.inr interrupted

theorem inv_swept_busy (h : Inv s) {n : Nat} (holds : Holds s n) :
    Inv (swept c { s with opened := false }) := by
  obtain ⟨below,client,_,derived,_,others⟩ := holds
  have closed : (swept c { s with opened := false }).closed = s.closed ++ [.derived n] := by
    simp [swept, released, logged, derived]
  constructor
  · intro connection member
    rw [closed] at member
    rcases List.mem_append.mp member with old | last
    · exact h.numbered connection old
    · exact ⟨n,below,List.mem_singleton.mp last⟩
  · intro opened
    cases opened
  · intro _
    refine ⟨rfl,?_,?_⟩
    · intro m earlier
      rw [closed]
      apply List.mem_append.mpr
      by_cases other : m = n
      · right
        rw [other]
        exact List.mem_singleton.mpr rfl
      · left
        exact others m earlier other
    · intro connection built
      have same : s.client = some connection := built
      rw [client] at same
      cases same
      rw [closed]
      exact List.mem_append.mpr (Or.inr (List.mem_singleton.mpr rfl))

theorem decides_exit (h : Inv s) :
    Ends (exit c r) s (fun _ => Decides (s.opened = true → ¬ SweepInterrupted c r))
      (fun _ => Decides (s.opened = true → ¬ SweepInterrupted c r)) := by
  cases opened : s.opened with
  | true =>
    obtain ⟨n,holds⟩ := h.opened opened
    apply ends_exit
    · intro quiet
      have kept : Decides (true = true → ¬ SweepInterrupted c r)
          (swept c { s with opened := false }) :=
        decides_kept (inv_swept_busy h holds) fun _ => quiet
      exact ⟨kept,fun _ => kept⟩
    · intro e interrupted
      apply decides_broken
      · exact not_owned_leaked rfl holds.1 holds.2.2.2.2.1
      · intro clean
        exact clean rfl interrupted
  | false =>
    have is_clean : false = true → ¬ SweepInterrupted c r := by
      intro no
      contradiction
    have derived := (h.idle opened).1
    have closed : (swept c { s with opened := false }).closed = s.closed := by
      simp [swept, released, logged, derived]
    apply ends_exit
    · intro _
      have kept : Decides (false = true → ¬ SweepInterrupted c r)
          (swept c { s with opened := false }) :=
        decides_kept (inv_idle h opened closed rfl rfl rfl rfl) is_clean
      exact ⟨kept,fun _ => kept⟩
    · intro e _
      exact decides_kept (inv_idle h opened rfl rfl rfl derived rfl) is_clean

theorem decides_step (derives : c.wiring = .derives) (h : Inv s) (call : Call κ δ) :
    Decides (Clean c s call) (step c s call) := by
  apply ends_final
  cases call with
  | closes r => exact decides_exit h
  | opens r =>
    cases opened : s.opened with
    | true => exact decides_enter_busy h opened
    | false =>
      cases built : s.client with
      | none => exact decides_enter_first derives h opened built
      | some connection => exact decides_enter_idle h opened built

theorem inv_fresh (derives : c.wiring = .derives) (db : δ) : Inv (c.fresh db) := by
  constructor
  · intro connection member
    cases member
  · intro opened
    cases opened
  · intro _
    refine ⟨rfl,?_,?_⟩
    · intro n below
      exact absurd below (Nat.not_lt_zero n)
    · intro connection built
      simp [Consumer.fresh, derives] at built

/-- Over any run of `open()` and `close()`: connections are owned as promised after every
    call if and only if every call is clean. -/
theorem connections_owned_iff (c : Consumer κ) (derives : c.wiring = .derives) (db : δ)
    (calls : List (Call κ δ)) :
    (∀ t ∈ visited (step c) (c.fresh db) calls, Owned t) ↔
      EveryStep (step c) (Clean c) (c.fresh db) calls := by
  apply safe_iff_clean Inv
  · intro s call h clean
    exact (decides_step derives h call).1 clean
  · intro s h
    exact owned_of_inv h
  · intro s call h owned
    exact (decides_step derives h call).2 owned
  · exact inv_fresh derives db

def interrupted : Exc := .raised .keyboardInterrupt ""

theorem connections_owned_interrupted :
    (∀ t ∈ visited (step { sinks := [0] }) (Consumer.fresh { sinks := [0] } ())
        [Call.opens {},.closes { closeSink := fun _ => some interrupted }], Owned t) ↔
      EveryStep (step { sinks := [0] }) (Clean { sinks := [0] })
        (Consumer.fresh { sinks := [0] } ())
        [Call.opens {},.closes { closeSink := fun _ => some interrupted }] :=
  connections_owned_iff { sinks := [0] } rfl () [Call.opens {},.closes _]

def coldConnection : Exc :=
  .caused .runtimeError "cdc prewarm failed (is ducklake_cdc LOADed on this connection?)"
    (.raised .otherException "Catalog Error: Scalar Function with name cdc_version does not exist!")

/-- The connection derived before a failed prewarm is never closed. -/
theorem prewarm_failure_leaks :
    ¬ Owned (step ({} : Consumer Nat) (Consumer.fresh {} ())
      (.opens { prewarm := some coldConnection })) := by
  have after : (step ({} : Consumer Nat) (Consumer.fresh {} ())
      (.opens { prewarm := some coldConnection })).opened = false ∧
      (step ({} : Consumer Nat) (Consumer.fresh {} ())
        (.opens { prewarm := some coldConnection })).derivedCount = 1 ∧
      (step ({} : Consumer Nat) (Consumer.fresh {} ())
        (.opens { prewarm := some coldConnection })).closed = [] := by
    decide +kernel
  obtain ⟨idle,count,closed⟩ := after
  apply not_owned_leaked idle
  · rw [count]
    exact Nat.zero_lt_one
  · rw [closed]
    exact List.not_mem_nil

end CdcOwnership
