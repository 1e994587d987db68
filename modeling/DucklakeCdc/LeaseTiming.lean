import DucklakeCdc.LeaseWaiting

/-!
Two processes and one lease: its holder beats, and at some time stops; another one opens the
consumer with the wait policy. Beats that come on time keep the other out, and once they
have stopped it gets in as soon as the lease has lapsed, give or take a poll.
-/
namespace CdcLeaseTiming
open Programs CdcRetry CdcSetup CdcLeaseRespect CdcLeaseWait

def took (s : Registry) (k : Nat) : ℚ := max 0 (s.moments (s.calls.length + k)).elapsed

/-- The clock after lookup `k` of the wait policy. The first lookup comes before the loop;
    between those of the loop lies a poll interval. -/
def lookedAt (s : Registry) : Nat → ℚ
  | 0 => s.mono + took s 0
  | 1 => lookedAt s 0 + took s 1
  | k + 2 => lookedAt s (k + 1) + leaseWaitPollInterval + took s (k + 2)

def deadline (c : Config) (s : Registry) : ℚ := lookedAt s 0 + c.leaseWaitTimeout

/-- Each lookup finds the consumer leased, alive up to `expiry` on the opener's clock. -/
structure AliveUntil (c : Config) (expiry : ℚ) (s : Registry) : Prop where
  clean : ∀ k, (s.moments (s.calls.length + k)).fault = none
  found : ∀ k, ∃ entry, lookup c.name (drift s.moments s.calls.length s.entries (k + 1)) = some entry ∧
    (Live entry (s.moments (s.calls.length + k)).wall ↔ lookedAt s k ≤ expiry)

structure Polled (c : Config) (expiry : ℚ) (s : Registry) (m : Nat) (t : Registry) : Prop extends
    Looked s m t where
  next : t.mono + took s (m + 1) = lookedAt s (m + 1)
  alive : lookedAt s m ≤ expiry
  early : lookedAt s m ≤ deadline c s

/-- Lookup `k` is the last, and the one before it had neither reason to be. -/
structure LastLook (c : Config) (expiry : ℚ) (s : Registry) (k : Nat) (t : Registry) : Prop where
  mono : t.mono = lookedAt s k
  before : ∀ j, k = j + 1 → lookedAt s j ≤ expiry ∧ lookedAt s j ≤ deadline c s

section
variable {p : Platform} {c : Config} {s t : Registry} {m : Nat} {expiry δ : ℚ}

theorem lookedAt_next (quick : ∀ k, took s k ≤ δ) (k : Nat) :
    lookedAt s (k + 1) ≤ lookedAt s k + 1 / 2 + δ := by
  have call := quick (k + 1)
  cases k with
  | zero =>
    have one : lookedAt s (0 + 1) = lookedAt s 0 + took s (0 + 1) := rfl
    linarith
  | succ k =>
    rw [lookedAt, leaseWaitPollInterval]
    linarith

theorem leased_iff_alive {entry : ConsumerListEntry} {now : ℚ} :
    leased (some entry) now = if leaseIsAlive entry now then some entry else none := by
  rw [leased, Option.filter_some]

theorem leased_at (h : AliveUntil c expiry s) (k : Nat) (looked : Looked s k t) :
    (expiry < lookedAt s k ∧ leased (lookup c.name t.entries) t.wall = none) ∨
      (lookedAt s k ≤ expiry ∧ ∃ entry, leased (lookup c.name t.entries) t.wall = some entry) := by
  obtain ⟨entry,found,alive⟩ := h.found k
  rw [looked.entries, looked.wall, found, leased_iff_alive]
  by_cases before : lookedAt s k ≤ expiry
  · exact Or.inr ⟨before,entry,if_pos (live_iff.mpr (alive.mpr before))⟩
  · refine Or.inl ⟨not_le.mp before,if_neg fun live => before ?_⟩
    exact alive.mp (live_iff.mp live)

theorem ends_look_timed (h : AliveUntil c expiry s) (polled : Polled c expiry s m t) :
    Ends (lookupConsumer c) t
      (fun found u => match leased found u.wall with
        | none => LastLook c expiry s (m + 1) u ∧ expiry < u.mono
        | some _ =>
          if deadline c s ≤ u.mono then LastLook c expiry s (m + 1) u ∧ u.mono ≤ expiry
          else Polled c expiry s (m + 1) { u with mono := u.mono + max 0 leaseWaitPollInterval })
      (fun _ _ => False) := by
  have moment := looked_moment polled.toLooked
  have looked := looked_next polled.toLooked
  have mono : (t.arrive .list).mono = lookedAt s (m + 1) := by
    rw [← polled.next, took, ← moment]
    rfl
  have last : LastLook c expiry s (m + 1) (t.arrive .list) := by
    refine ⟨mono,?_⟩
    rintro j same
    obtain rfl : m = j := Nat.succ.inj same
    exact ⟨polled.alive,polled.early⟩
  apply ends_lookupConsumer
  · intro e fault
    rw [moment, h.clean (m + 1)] at fault
    contradiction
  · intro _
    rcases leased_at h (m + 1) looked with ⟨gone,free⟩ | ⟨alive,_,held⟩
    · rw [free]
      exact ⟨last,mono ▸ gone⟩
    · rw [held]
      dsimp only
      split
      · exact ⟨last,mono ▸ alive⟩
      · next early =>
        rw [mono, not_le] at early
        refine ⟨⟨looked.calls,looked.entries,looked.wall,looked.moments⟩,?_,alive,early.le⟩
        have poll : max 0 leaseWaitPollInterval = leaseWaitPollInterval := by
          norm_num [leaseWaitPollInterval]
        dsimp only
        rw [mono, poll, lookedAt]

/-- The wait policy ends at its first lookup that finds the lease lapsed, or at the first of
    the loop that finds it alive at the deadline or later. -/
theorem ends_wait_timed (p : Platform) (wait : c.leasePolicy = .wait) (h : AliveUntil c expiry s) :
    Ends (applyLeasePolicy p c) s
      (fun _ t => ∃ k, LastLook c expiry s k t ∧ expiry < t.mono)
      (fun e t => ∃ k entry, LastLook c expiry s k t ∧ t.mono ≤ expiry ∧ deadline c s ≤ t.mono ∧
        e = waitedError p c entry) := by
  have looked := looked_first s
  have last : LastLook c expiry s 0 (s.arrive .list) := ⟨rfl,fun _ no => nomatch no⟩
  unfold applyLeasePolicy
  rw [ends_bind]
  apply ends_lookupConsumer
  · intro e fault
    have clean := h.clean 0
    rw [Nat.add_zero] at clean
    rw [Registry.moment, clean] at fault
    contradiction
  · intro _
    rw [ends_bind, ends_get]
    rcases leased_at h 0 looked with ⟨gone,free⟩ | ⟨alive,_,held⟩
    · rw [free]
      exact ⟨0,last,gone⟩
    · rw [held]
      simp only [wait, ends_bind, ends_get]
      have first : Polled c expiry s 0 (s.arrive .list) := by
        refine ⟨looked,rfl,alive,?_⟩
        rw [deadline]
        linarith [c.timeout_nonneg]
      have until_ : (s.arrive .list).mono + c.leaseWaitTimeout = deadline c s := rfl
      rw [until_]
      apply ends_awaitLease (fun u => ∃ m, Polled c expiry s m u) _ ⟨0,first⟩
      rintro u ⟨m,polled⟩
      refine ends_mono (ends_look_timed h polled) ?_ (fun _ _ no => no.elim)
      intro found v looked
      split
      · next free =>
        rw [free] at looked
        exact ⟨m + 1,looked⟩
      · next entry held =>
        rw [held] at looked
        dsimp only at looked
        split
        · next due =>
          rw [if_pos due] at looked
          exact ⟨m + 1,entry,looked.1,looked.2,due,rfl⟩
        · next early =>
          rw [if_neg early] at looked
          exact ⟨m + 1,looked⟩

theorem lastLook_lapsed {k : Nat} (quick : ∀ k, took s k ≤ δ) (last : LastLook c expiry s k t) :
    t.mono ≤ max (lookedAt s 0) (expiry + 1 / 2 + δ) := by
  cases k with
  | zero => exact last.mono.le.trans (le_max_left _ _)
  | succ j =>
    have next := lookedAt_next quick j
    have before := (last.before j rfl).1
    rw [last.mono]
    exact le_max_of_le_right (by linarith)

theorem lastLook_due {k : Nat} (quick : ∀ k, took s k ≤ δ) (last : LastLook c expiry s k t) :
    t.mono ≤ deadline c s + 1 / 2 + δ := by
  have quick_ : 0 ≤ δ := (le_max_left 0 _).trans (quick 0)
  rw [last.mono]
  cases k with
  | zero =>
    rw [deadline]
    linarith [c.timeout_nonneg]
  | succ j =>
    have next := lookedAt_next quick j
    have before := (last.before j rfl).2
    linarith

theorem wait_times (p : Platform) (wait : c.leasePolicy = .wait) (h : AliveUntil c expiry s)
    (quick : ∀ k, took s k ≤ δ) :
    Ends (applyLeasePolicy p c) s
      (fun _ t => expiry < t.mono ∧ t.mono ≤ max (lookedAt s 0) (expiry + 1 / 2 + δ))
      (fun e t => (∃ entry, e = waitedError p c entry) ∧ deadline c s ≤ t.mono ∧
        t.mono ≤ expiry ∧ t.mono ≤ deadline c s + 1 / 2 + δ) ∧
    (expiry < deadline c s → Ends (applyLeasePolicy p c) s
      (fun _ t => expiry < t.mono ∧ t.mono ≤ max (lookedAt s 0) (expiry + 1 / 2 + δ))
      (fun _ _ => False)) ∧
    (deadline c s + 1 / 2 + δ ≤ expiry → Ends (applyLeasePolicy p c) s (fun _ _ => False)
      (fun e t => (∃ entry, e = waitedError p c entry) ∧ deadline c s ≤ t.mono ∧
        t.mono ≤ deadline c s + 1 / 2 + δ)) := by
  have ends := ends_wait_timed p wait h
  refine ⟨ends_mono ends ?_ ?_,fun lapses => ends_mono ends ?_ ?_,fun outlives => ends_mono ends ?_ ?_⟩
  · rintro _ t ⟨k,last,gone⟩
    exact ⟨gone,lastLook_lapsed quick last⟩
  · rintro e t ⟨k,entry,last,alive,due,rfl⟩
    exact ⟨⟨entry,rfl⟩,due,alive,lastLook_due quick last⟩
  · rintro _ t ⟨k,last,gone⟩
    exact ⟨gone,lastLook_lapsed quick last⟩
  · rintro e t ⟨k,entry,_,alive,due,_⟩
    linarith
  · rintro _ t ⟨k,last,gone⟩
    linarith [lastLook_due quick last]
  · rintro e t ⟨k,entry,last,_,due,rfl⟩
    exact ⟨⟨entry,rfl⟩,due,lastLook_due quick last⟩

end

structure Holder where
  token : BitVec 128
  interval : Option Int
  first : ℚ
  rest : List ℚ

def latest : ℚ → List ℚ → ℚ → ℚ
  | beat, [], _ => beat
  | beat, next :: rest, now => if next ≤ now then latest next rest now else beat

def Holder.last (holder : Holder) : ℚ := (holder.first :: holder.rest).getLast (by simp)

def Holder.entry (holder : Holder) (name : String) (now : ℚ) : ConsumerListEntry where
  consumerName := name
  ownerToken := some holder.token
  ownerHeartbeatAt := some (latest holder.first holder.rest now)
  leaseIntervalSeconds := holder.interval

def Holder.cutoff (holder : Holder) : ℚ :=
  let interval : ℚ := holder.interval.getD 0
  interval + max 5 (interval / 2)

/-- No beat is later after the one before it than the lease allows. -/
def Holder.OnTime (holder : Holder) : Prop :=
  (holder.first :: holder.rest).IsChain fun beat next => beat ≤ next ∧ next - beat ≤ holder.cutoff

theorem latest_recent_iff {cutoff now : ℚ} (beat : ℚ) (rest : List ℚ)
    (onTime : (beat :: rest).IsChain fun beat next => beat ≤ next ∧ next - beat ≤ cutoff) :
    now - latest beat rest now ≤ cutoff ↔ now ≤ (beat :: rest).getLast (by simp) + cutoff := by
  induction rest generalizing beat with
  | nil => exact sub_le_iff_le_add'
  | cons next rest ih =>
    rw [List.isChain_cons_cons] at onTime
    obtain ⟨⟨later,gap⟩,others⟩ := onTime
    rw [latest, List.getLast_cons (by simp)]
    split
    · exact ih next others
    · next early =>
      have sorted : ∀ (next : ℚ) (rest : List ℚ),
          (next :: rest).IsChain (fun beat next => beat ≤ next ∧ next - beat ≤ cutoff) →
          next ≤ (next :: rest).getLast (by simp) := by
        intro next rest chain
        induction rest generalizing next with
        | nil => exact le_refl _
        | cons other rest ih =>
          rw [List.isChain_cons_cons] at chain
          rw [List.getLast_cons (by simp)]
          exact chain.1.1.trans (ih other chain.2)
      have below := sorted next rest others
      rw [not_le] at early
      exact iff_of_true (by linarith) (by linarith)

/-- Each lookup of the opener, whose clock is `offset` behind the wall clock, finds the
    holder's entry with the last heartbeat so far. -/
structure Sees (c : Config) (holder : Holder) (offset : ℚ) (s : Registry) : Prop where
  clean : ∀ k, (s.moments (s.calls.length + k)).fault = none
  wall : ∀ k, (s.moments (s.calls.length + k)).wall = offset + lookedAt s k
  found : ∀ k, lookup c.name (drift s.moments s.calls.length s.entries (k + 1)) =
    some (holder.entry c.name (s.moments (s.calls.length + k)).wall)

theorem live_entry_iff (holder : Holder) (name : String) (now : ℚ) (onTime : holder.OnTime) :
    Live (holder.entry name now) now ↔ now ≤ holder.last + holder.cutoff := by
  rw [Holder.last, ← latest_recent_iff holder.first holder.rest onTime]
  constructor
  · exact fun live => live.fresh _ rfl
  · intro recent
    exact ⟨by simp [Holder.entry],fun heartbeat same => Option.some.inj same ▸ recent⟩

/-- A holder whose heartbeats come on time, until it stops, against an opener with the wait
    policy. Up to `cutoff` seconds after the last heartbeat the opener does not get in,
    whatever its deadline; it gets in or gives up at most a poll and a lookup late. With a
    later deadline it gets in; if the lease outlives the deadline by a poll and a lookup, it
    gives up. -/
theorem holder_times (p : Platform) (c : Config) (wait : c.leasePolicy = .wait) (holder : Holder)
    (onTime : holder.OnTime) (offset δ : ℚ) (s : Registry) (sees : Sees c holder offset s)
    (quick : ∀ k, took s k ≤ δ) :
    let expiry := holder.last + holder.cutoff - offset
    Ends (applyLeasePolicy p c) s
      (fun _ t => expiry < t.mono ∧ t.mono ≤ max (lookedAt s 0) (expiry + 1 / 2 + δ))
      (fun e t => (∃ entry, e = waitedError p c entry) ∧ deadline c s ≤ t.mono ∧
        t.mono ≤ expiry ∧ t.mono ≤ deadline c s + 1 / 2 + δ) ∧
    (expiry < deadline c s → Ends (applyLeasePolicy p c) s
      (fun _ t => expiry < t.mono ∧ t.mono ≤ max (lookedAt s 0) (expiry + 1 / 2 + δ))
      (fun _ _ => False)) ∧
    (deadline c s + 1 / 2 + δ ≤ expiry → Ends (applyLeasePolicy p c) s (fun _ _ => False)
      (fun e t => (∃ entry, e = waitedError p c entry) ∧ deadline c s ≤ t.mono ∧
        t.mono ≤ deadline c s + 1 / 2 + δ)) := by
  refine wait_times p wait ⟨sees.clean,fun k => ⟨_,sees.found k,?_⟩⟩ quick
  rw [live_entry_iff holder c.name _ onTime, sees.wall k]
  constructor <;> intro before <;> linarith

def beating : Holder where
  token := 7
  interval := some 30
  first := 0
  rest := [30,60]

def opening : Registry where
  entries := []
  mono := 80
  moments k :=
    let now : ℚ := 80 + ((k - 1 : Nat) : ℚ) / 2
    { others := fun _ => [beating.entry "orders" now], wall := now }

theorem lookedAt_opening (k : Nat) : lookedAt opening k = 80 + ((k - 1 : Nat) : ℚ) / 2 := by
  have quick : ∀ k, took opening k = 0 := fun _ => max_self 0
  induction k with
  | zero =>
    rw [lookedAt, quick]
    norm_num [opening]
  | succ k ih =>
    cases k with
    | zero =>
      rw [lookedAt, quick, ih]
      norm_num
    | succ k =>
      rw [lookedAt, quick, ih, leaseWaitPollInterval]
      push_cast
      ring

theorem opening_sees : Sees (ordersConfig .use) beating 0 opening where
  clean _ := rfl
  wall k := by
    rw [lookedAt_opening, zero_add, show opening.calls.length + k = k from Nat.zero_add k]
    rfl
  found k := by
    rw [show opening.calls.length + k = k from Nat.zero_add k, drift,
      show opening.calls.length + k = k from Nat.zero_add k]
    simp [opening, lookup, ordersConfig, Holder.entry]

theorem opener_gets_in :
    Ends (applyLeasePolicy Platform.plain (ordersConfig .use)) opening
      (fun _ t => 105 < t.mono ∧ t.mono ≤ 105 + 1 / 2) (fun _ _ => False) := by
  have onTime : beating.OnTime := by
    unfold Holder.OnTime
    norm_num [beating, Holder.cutoff]
  have lapses : beating.last + beating.cutoff - 0 = 105 := by
    norm_num [beating, Holder.last, Holder.cutoff]
  have patient : deadline (ordersConfig .use) opening = 110 := by
    rw [deadline, lookedAt_opening]
    norm_num [ordersConfig]
  have times := holder_times Platform.plain (ordersConfig .use) rfl beating onTime 0 0 opening
    opening_sees fun _ => le_of_eq (max_self 0)
  rw [lapses, patient, lookedAt_opening] at times
  exact ends_mono (times.2.1 (by norm_num)) (fun _ t h => ⟨h.1,h.2.trans (by norm_num)⟩)
    (fun _ _ no => no)

end CdcLeaseTiming
