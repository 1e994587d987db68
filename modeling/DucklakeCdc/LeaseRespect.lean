import DucklakeCdc.ConsumerLifecycle
import DucklakeCdc.ConsumerSetup

/-!
A lease that another owner keeps alive. Unless `on_exists='replace'` or
`lease_policy='takeover'` asks for it, opening a consumer neither releases the lease nor
drops the consumer: it ends in an error.
-/
namespace CdcLeaseRespect
open Programs CdcRetry CdcSetup CdcLifecycle

def isRelease : CatalogCall → Bool
  | .forceRelease _ | .drop _ => true
  | .create _ | .list => false

def releases (calls : List CatalogCall) : List CatalogCall := calls.filter isRelease

/-- The catalog after `n` more moments, as far as other processes change it. -/
def drift (moments : Nat → Moment) (first : Nat) (entries : Catalog) : Nat → Catalog
  | 0 => entries
  | n + 1 => (moments (first + n)).others (drift moments first entries n)

/-- Whenever the catalog is looked at from now on, the consumer is leased. -/
def HeldThroughout (c : Config) (s : Registry) : Prop :=
  ∀ n, ∃ entry, leased (lookup c.name (drift s.moments s.calls.length s.entries (n + 1)))
    (s.moments (s.calls.length + n)).wall = some entry

structure Respected (c : Config) (s₀ s : Registry) : Prop where
  moments : s.moments = s₀.moments
  held : HeldThroughout c s
  same : releases s.calls = releases s₀.calls

/-- The errors that `__enter__` has for a lease that stays alive. -/
def Refusal (p : Platform) (c : Config) (e : Exc) : Prop :=
  match c.onExists, c.leasePolicy with
  | .error, _ => e = existsError p c
  | _, .wait => ∃ entry, e = waitedError p c entry
  | _, _ => ∃ entry, e = leasedError p c entry

def Answer (p : Platform) (c : Config) (s₀ : Registry) (e : Exc) : Prop :=
  Refusal p c e ∨ (∃ i, (s₀.moments i).fault = some e) ∨ e = maxAttemptsError

variable {p : Platform} {c : Config} {s₀ s : Registry}

theorem drift_shift (moments : Nat → Moment) (first n : Nat) (entries : Catalog) :
    drift moments (first + 1) ((moments first).others entries) n =
      drift moments first entries (n + 1) := by
  induction n with
  | zero => rfl
  | succ n ih =>
    rw [drift, ih, drift]
    congr 2
    omega

theorem held_now (held : HeldThroughout c s) (call : CatalogCall) :
    ∃ entry, leased (lookup c.name (s.arrive call).entries) (s.arrive call).wall = some entry :=
  held 0

theorem held_arrive (held : HeldThroughout c s) (call : CatalogCall) :
    HeldThroughout c (s.arrive call) := by
  intro n
  obtain ⟨entry,later⟩ := held (n + 1)
  refine ⟨entry,?_⟩
  have calls : (s.arrive call).calls.length = s.calls.length + 1 := by simp
  have entries : (s.arrive call).entries = (s.moments s.calls.length).others s.entries := rfl
  rw [calls, entries, arrive_moments, drift_shift]
  rw [show s.calls.length + 1 + n = s.calls.length + (n + 1) by omega]
  exact later

theorem respected_arrive {call : CatalogCall} (h : Respected c s₀ s)
    (harmless : isRelease call = false) : Respected c s₀ (s.arrive call) := by
  constructor
  · exact h.moments
  · exact held_arrive h.held call
  · rw [arrive_calls, ← h.same]
    simp [releases, harmless]

theorem respected_mono (h : Respected c s₀ s) (mono : ℚ) :
    Respected c s₀ { s with mono := mono } := ⟨h.moments,h.held,h.same⟩

theorem answer_of_fault (h : Respected c s₀ s) {e : Exc} (fault : s.moment.fault = some e) :
    Answer p c s₀ e := by
  right
  left
  refine ⟨s.calls.length,?_⟩
  rw [← h.moments]
  exact fault

theorem ends_tryCreate_held (h : Respected c s₀ s) :
    Ends (tryCreate p c) s (fun created t => created = false ∧ Respected c s₀ t)
      (fun e t => Answer p c s₀ e ∧ Respected c s₀ t) := by
  have kept : Respected c s₀ (s.arrive (.create c.name)) := respected_arrive h rfl
  obtain ⟨entry,leased⟩ := held_now h.held (.create c.name)
  have present := has_of_lookup (leased_some leased).1
  unfold tryCreate cdcConsumerCreate
  rw [ends_tryExcept, ends_bind]
  apply ends_callCatalog
  · intro e fault
    have answer : Answer p c s₀ e := answer_of_fault h fault
    split
    · split
      · exact ⟨answer,kept⟩
      · exact ⟨rfl,kept⟩
    · exact ⟨answer,kept⟩
  · intro e _ refused
    rw [if_pos present] at refused
    cases refused
    simp only [(p.duplicate c.name).1, (p.duplicate c.name).2, if_true]
    exact ⟨rfl,kept⟩
  · intro a entries _ done
    rw [if_pos present] at done
    cases done

theorem ends_look_held (h : Respected c s₀ s) :
    Ends (lookupConsumer c) s
      (fun found t => Respected c s₀ t ∧ ∃ entry, leased found t.wall = some entry)
      (fun e t => Answer p c s₀ e ∧ Respected c s₀ t) := by
  have kept : Respected c s₀ (s.arrive .list) := respected_arrive h rfl
  apply ends_lookupConsumer
  · intro e fault
    exact ⟨answer_of_fault h fault,kept⟩
  · intro _
    exact ⟨kept,held_now h.held .list⟩

theorem ends_awaitLease_held (wait : c.leasePolicy = .wait) (use : c.onExists ≠ .error)
    (h : Respected c s₀ s) (deadline : ℚ) :
    Ends (awaitLease p c deadline) s (fun _ _ => False)
      (fun e t => Answer p c s₀ e ∧ Respected c s₀ t) := by
  apply ends_awaitLease (Respected c s₀) _ h
  intro s h
  apply ends_mono (ends_look_held h) _ (fun _ _ answered => answered)
  intro found t facts
  obtain ⟨kept,entry,held⟩ := facts
  rw [held]
  dsimp only
  split
  · have refusal : Refusal p c (waitedError p c entry) := by
      unfold Refusal
      rw [wait]
      split
      · contradiction
      · exact ⟨entry,rfl⟩
      · contradiction
    exact ⟨Or.inl refusal,kept⟩
  · exact respected_mono kept _

theorem ends_applyLeasePolicy_held (not_takeover : c.leasePolicy ≠ .takeover)
    (use : c.onExists ≠ .error) (h : Respected c s₀ s) :
    Ends (applyLeasePolicy p c) s (fun _ _ => False)
      (fun e t => Answer p c s₀ e ∧ Respected c s₀ t) := by
  unfold applyLeasePolicy
  rw [ends_bind]
  apply ends_mono (ends_look_held h) _ (fun _ _ answered => answered)
  intro found t facts
  obtain ⟨kept,entry,held⟩ := facts
  rw [ends_bind, ends_get, held]
  cases policy : c.leasePolicy with
  | takeover => exact absurd policy not_takeover
  | wait =>
    simp only [ends_bind, ends_get]
    exact ends_awaitLease_held policy use kept _
  | error =>
    have refusal : Refusal p c (leasedError p c entry) := by
      unfold Refusal
      rw [policy]
      split
      · contradiction
      · contradiction
      · exact ⟨entry,rfl⟩
    rw [ends_throw]
    exact ⟨Or.inl refusal,kept⟩

theorem ends_setup_held (not_replace : c.onExists ≠ .replace)
    (not_takeover : c.leasePolicy ≠ .takeover) (h : Respected c s₀ s) :
    Ends (setupAndApplyLeasePolicy p c) s (fun _ _ => False)
      (fun e t => Answer p c s₀ e ∧ Respected c s₀ t) := by
  unfold setupAndApplyLeasePolicy setupConsumer
  cases policy : c.onExists with
  | replace => exact absurd policy not_replace
  | use =>
    simp only [reduceCtorEq, if_false, ends_bind]
    apply ends_mono (ends_tryCreate_held h) _ (fun _ _ answered => answered)
    intro created t facts
    obtain ⟨not_created,kept⟩ := facts
    subst created
    simp only [Bool.false_eq_true, if_false, ends_pure]
    apply ends_applyLeasePolicy_held not_takeover _ kept
    rw [policy]
    decide
  | error =>
    simp only [reduceCtorEq, if_false, ends_bind]
    apply ends_mono (ends_tryCreate_held h) _ (fun _ _ answered => answered)
    intro created t facts
    obtain ⟨not_created,kept⟩ := facts
    subst created
    have refusal : Refusal p c (existsError p c) := by
      unfold Refusal
      rw [policy]
    simp only [Bool.false_eq_true, if_false, if_true, ends_throw]
    exact ⟨Or.inl refusal,kept⟩

theorem respected_start (held : HeldThroughout c s) : Respected c s s := ⟨rfl,held,rfl⟩

theorem ends_retried_held (not_replace : c.onExists ≠ .replace)
    (not_takeover : c.leasePolicy ≠ .takeover) (held : HeldThroughout c s) (policy : RetryPolicy) :
    Ends (retriedSetup p c policy) s (fun _ _ => False)
      (fun e t => Answer p c s e ∧ Respected c s t) := by
  apply ends_policy_err policy _ _ _ s (respected_start held)
  · intro t h
    apply ends_mono (ends_setup_held not_replace not_takeover h) (fun _ _ no => no)
    intro e u answered
    exact ⟨answered,answered.2⟩
  · intro d t h
    exact respected_mono h _
  · intro t h
    exact ⟨Or.inr (Or.inr rfl),h⟩

section
variable {κ : Type} {k : Consumer κ} {r : Replies κ Registry} {u : Lifecycle κ Registry}

def withSetup (p : Platform) (c : Config) (r : Replies κ Registry) : Replies κ Registry :=
  { r with setup := setupAndApplyLeasePolicy p c, sleep := CdcSetup.sleep }

/-- Nothing fails but calls to the catalog. -/
structure Calm (k : Consumer κ) (r : Replies κ Registry) (u : Lifecycle κ Registry) : Prop where
  derive : r.derive = none
  prewarm : r.prewarm = none
  sweep : ¬ SweepInterrupted k r
  closing : interrupts r.closeConnection = false
  kept : ∀ connection, u.client = some connection → connection ∉ u.closed
  new : u.client = none → (drawn k u).1 ∉ u.closed

theorem ends_guarded_held (not_replace : c.onExists ≠ .replace)
    (not_takeover : c.leasePolicy ≠ .takeover) (held : HeldThroughout c s)
    (connection : Connection) (same : u.db = s) :
    Ends (guarded k (withSetup p c r) connection) u (fun _ _ => False)
      (fun e t => releases t.db.calls = releases s.calls ∧
        (¬ SweepInterrupted k r → interrupts r.closeConnection = false →
          connection ∉ u.closed → Answer p c s e)) := by
  subst s
  have cleaned : ∀ e (db : Registry), releases db.calls = releases u.db.calls →
      (connection ∉ u.closed → Answer p c u.db e) →
      Ends (do
          closeSinksQuietly k (withSetup p c r)
          closeDerivedConnection (withSetup p c r)
          throw e : Owner κ Registry Unit) { u with db := db } (fun _ _ => False)
        (fun e' t => releases t.db.calls = releases u.db.calls ∧
          (¬ SweepInterrupted k r → interrupts r.closeConnection = false →
            connection ∉ u.closed → Answer p c u.db e')) := by
    intro e db same answer
    apply ends_mono (ends_cleanup e) (fun _ _ no => no)
    intro e' t facts
    obtain ⟨kept,again⟩ := facts
    constructor
    · rw [kept]
      exact same
    · intro quiet closing live
      rw [again quiet closing]
      exact answer live
  unfold guarded attempt setupOn
  rw [ends_tryExcept, ends_bind, ends_bind, ends_get, ends_within]
  split
  · rename_i shut
    have raises : Ends (k.retryPolicy.run CdcSetup.sleep (throw r.onClosed : Setup Unit)) u.db
        (fun _ _ => False) (fun _ _ => True) :=
      ends_policy_raises k.retryPolicy (fun _ => (ends_throw _).mpr trivial) u.db
    have keeps : Keeps (fun db : Registry => releases db.calls = releases u.db.calls)
        (k.retryPolicy.run CdcSetup.sleep (throw r.onClosed : Setup Unit)) :=
      keeps_policy k.retryPolicy (keeps_throw _) fun _ _ same => same
    apply ends_mono (ends_and raises (keeps u.db rfl)) (fun _ _ no => no.1.elim)
    intro e db facts
    obtain ⟨_,same⟩ := facts
    exact cleaned e db same fun live => absurd shut live
  · apply ends_mono (ends_retried_held not_replace not_takeover held k.retryPolicy)
      (fun _ _ no => no.elim)
    intro e db facts
    obtain ⟨answer,kept⟩ := facts
    exact cleaned e db kept.same fun _ => answer

/-- Opening a consumer whose lease another owner keeps alive ends in an error, with no
    release and no drop; if only the catalog may fail, in the refusal of its policies. -/
theorem live_lease_respected (p : Platform) (c : Config) (not_replace : c.onExists ≠ .replace)
    (not_takeover : c.leasePolicy ≠ .takeover) (k : Consumer κ) (r : Replies κ Registry)
    (u : Lifecycle κ Registry) (held : HeldThroughout c u.db) :
    Ends (enter k (withSetup p c r)) u (fun _ _ => False)
      (fun e t => releases t.db.calls = releases u.db.calls ∧
        (Calm k r u → Answer p c u.db e)) := by
  cases built : u.client with
  | none =>
    have same : (drawn k u).2.db = u.db ∧ ((drawn k u).1 ∉ u.closed →
        (drawn k u).1 ∉ (drawn k u).2.closed) := by
      unfold drawn
      split <;> exact ⟨rfl,fun h => h⟩
    apply ends_enter_first built
    · intro e refused _
      refine ⟨rfl,fun calm => ?_⟩
      have none_refused : r.derive = some e := refused
      rw [calm.derive] at none_refused
      cases none_refused
    · intro e cold _
      refine ⟨by rw [same.1],fun calm => ?_⟩
      have none_cold : r.prewarm = some e := cold
      rw [calm.prewarm] at none_cold
      cases none_cold
    · intro _ _
      apply ends_mono
      · exact ends_guarded_held not_replace not_takeover held _ same.1
      · exact fun _ _ no => no
      · intro e t facts
        obtain ⟨kept,answer⟩ := facts
        exact ⟨kept,fun calm => answer calm.sweep calm.closing (same.2 (calm.new built))⟩
  | some connection =>
    apply ends_enter_again built
    apply ends_mono
    · exact ends_guarded_held not_replace not_takeover held connection rfl
    · exact fun _ _ no => no
    · intro e t facts
      obtain ⟨kept,answer⟩ := facts
      exact ⟨kept,fun calm => answer calm.sweep calm.closing (calm.kept connection built)⟩

end

def heldRun : Registry where
  entries := [ordersLease]
  moments _ := {}

theorem heldRun_held (onExists : OnExists) : HeldThroughout (ordersConfig onExists) heldRun := by
  intro n
  have still : ∀ n, drift heldRun.moments heldRun.calls.length heldRun.entries n = [ordersLease] := by
    intro n
    induction n with
    | zero => rfl
    | succ n ih =>
      rw [drift, ih]
      rfl
  refine ⟨ordersLease,?_⟩
  rw [still]
  have found : leased (lookup "orders" [ordersLease]) 0 = some ordersLease := by decide +kernel
  exact found

def opener : Consumer Nat := {}

theorem live_lease_respected_orders :
    Ends (enter opener (withSetup Platform.plain (ordersConfig .use) {})) (opener.fresh heldRun)
      (fun _ _ => False)
      (fun e t => releases t.db.calls = releases (opener.fresh heldRun).db.calls ∧
        (Calm opener {} (opener.fresh heldRun) →
          Answer Platform.plain (ordersConfig .use) (opener.fresh heldRun).db e)) :=
  live_lease_respected Platform.plain (ordersConfig .use) (by decide) (by decide) opener {}
    (opener.fresh heldRun) (heldRun_held .use)

/-- `on_exists='replace'` returns before the lease policy: the lease is released and the
    consumer dropped although `lease_policy='wait'` was asked for. -/
theorem replace_drops_live_lease :
    HeldThroughout (ordersConfig .replace) heldRun ∧
      (ordersConfig .replace).leasePolicy = .wait ∧
      returnsWith (enter opener (withSetup Platform.plain (ordersConfig .replace) {}))
        (opener.fresh heldRun)
        (fun t => decide (releases t.db.calls = [.forceRelease "orders",.drop "orders"])) = true :=
  ⟨heldRun_held .replace,rfl,by decide +kernel⟩

end CdcLeaseRespect
