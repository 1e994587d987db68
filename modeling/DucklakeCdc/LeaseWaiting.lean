import DucklakeCdc.LeaseRespect

/-!
What one execution of the wait policy does (`_apply_lease_policy`), whatever other
processes do to the catalog between its lookups, whatever the clocks do and whichever
lookup fails. The number of lookups is bounded, nothing but a lookup is called, and both
ways out answer what the last lookup found.
-/
namespace CdcLeaseWait
open Programs CdcRetry CdcSetup CdcLeaseRespect

def cutoffAge (entry : ConsumerListEntry) : ℚ :=
  let interval : ℚ := entry.leaseIntervalSeconds.getD 0
  interval + max 5 (interval / 2)

/-- Owned, and no heartbeat or a recent one. -/
structure Live (entry : ConsumerListEntry) (now : ℚ) : Prop where
  owned : entry.ownerToken ≠ none
  fresh : ∀ heartbeat, entry.ownerHeartbeatAt = some heartbeat → now - heartbeat ≤ cutoffAge entry

inductive Lapsed (entry : ConsumerListEntry) (now : ℚ) : Prop where
  | unowned (none_ : entry.ownerToken = none)
  | expired (heartbeat : ℚ) (owned : entry.ownerToken ≠ none)
      (beat : entry.ownerHeartbeatAt = some heartbeat) (old : cutoffAge entry < now - heartbeat)

/-- From `s`, exactly `m + 1` lookups and nothing else; other processes alone have changed
    the catalog. -/
structure Looked (s : Registry) (m : Nat) (t : Registry) : Prop where
  calls : t.calls = s.calls ++ List.replicate (m + 1) .list
  entries : t.entries = drift s.moments s.calls.length s.entries (m + 1)
  wall : t.wall = (s.moments (s.calls.length + m)).wall
  moments : t.moments = s.moments

def waitsFrom (s : Registry) : ℚ := s.mono + max 0 s.moment.elapsed

structure Waiting (c : Config) (s : Registry) (m : Nat) (t : Registry) : Prop extends
    Looked s m t where
  slept : waitsFrom s + m * (1 / 2) ≤ t.mono
  room : (m : Int) ≤ ⌈2 * c.leaseWaitTimeout⌉

/-- The lookup that comes last finds the consumer free. -/
structure FoundFree (c : Config) (s : Registry) (m : Nat) (t : Registry) : Prop where
  clean : (s.moments (s.calls.length + m)).fault = none
  free : ∀ entry, lookup c.name t.entries = some entry → Lapsed entry t.wall

/-- The lookup that comes last finds a live lease, at the deadline or later. -/
structure FoundHeld (p : Platform) (c : Config) (s : Registry) (m : Nat) (e : Exc) (t : Registry) :
    Prop where
  clean : (s.moments (s.calls.length + m)).fault = none
  held : ∃ entry, lookup c.name t.entries = some entry ∧ Live entry t.wall ∧ e = waitedError p c entry
  due : waitsFrom s + c.leaseWaitTimeout ≤ t.mono

section
variable {p : Platform} {c : Config} {s t : Registry} {m : Nat} {entry : ConsumerListEntry} {now : ℚ}

theorem live_iff : leaseIsAlive entry now = true ↔ Live entry now := by
  obtain ⟨_,owner,beat,interval⟩ := entry
  cases owner with
  | none =>
    constructor
    · intro alive
      contradiction
    · exact fun live => absurd rfl live.owned
  | some token =>
    cases beat with
    | none => exact ⟨fun _ => ⟨by simp,fun _ beat => by cases beat⟩,fun _ => rfl⟩
    | some heartbeat =>
      simp only [leaseIsAlive, leaseFreshnessGraceSeconds, decide_eq_true_eq, Option.isNone_some,
        Bool.false_eq_true, if_false, mul_one_div]
      constructor
      · intro recent
        exact ⟨by simp,fun _ beat => Option.some.inj beat ▸ recent⟩
      · exact fun live => live.fresh heartbeat rfl

theorem lapsed_of_not_live (dead : ¬ Live entry now) : Lapsed entry now := by
  by_cases owned : entry.ownerToken = none
  · exact .unowned owned
  cases beat : entry.ownerHeartbeatAt with
  | none => exact absurd ⟨owned,fun heartbeat some_ => by simp [beat] at some_⟩ dead
  | some heartbeat =>
    refine .expired heartbeat owned beat (not_le.mp fun recent => dead ⟨owned,?_⟩)
    intro other some_
    rw [beat] at some_
    exact Option.some.inj some_ ▸ recent

theorem free_of_leased {found : Option ConsumerListEntry} (free : leased found now = none) :
    ∀ entry, found = some entry → Lapsed entry now := by
  rintro entry rfl
  apply lapsed_of_not_live
  intro live
  simp [leased, live_iff.mpr live] at free

theorem looked_first (s : Registry) : Looked s 0 (s.arrive .list) := ⟨rfl,rfl,rfl,rfl⟩

theorem looked_next (h : Looked s m t) : Looked s (m + 1) (t.arrive .list) := by
  have count : t.calls.length = s.calls.length + (m + 1) := by
    rw [h.calls, List.length_append, List.length_replicate]
  constructor
  · rw [arrive_calls, h.calls, List.append_assoc, ← List.replicate_succ']
  · change (t.moments t.calls.length).others t.entries = _
    rw [h.entries, h.moments, count]
    rfl
  · change (t.moments t.calls.length).wall = _
    rw [h.moments, count]
  · exact h.moments

theorem looked_moment (h : Looked s m t) : t.moment = s.moments (s.calls.length + (m + 1)) := by
  rw [Registry.moment, h.moments, h.calls, List.length_append, List.length_replicate]

theorem waiting_first (c : Config) (s : Registry) : Waiting c s 0 (s.arrive .list) := by
  constructor
  · exact looked_first s
  · simp [Registry.arrive, waitsFrom]
  · exact Int.ceil_nonneg (mul_nonneg (by norm_num) c.timeout_nonneg)

theorem waiting_next (h : Waiting c s m t)
    (early : (t.arrive .list).mono < waitsFrom s + c.leaseWaitTimeout) :
    Waiting c s (m + 1)
      { t.arrive .list with mono := (t.arrive .list).mono + max 0 leaseWaitPollInterval } := by
  have forward : t.mono ≤ (t.arrive .list).mono := by simp [Registry.arrive]
  have slept := h.slept
  have poll : max 0 leaseWaitPollInterval = 1 / 2 := by norm_num [leaseWaitPollInterval]
  obtain ⟨calls,entries,wall,moments⟩ := looked_next h.toLooked
  constructor
  · exact ⟨calls,entries,wall,moments⟩
  · rw [poll]
    push_cast
    linarith
  · have below : ((m : Int) : ℚ) < 2 * c.leaseWaitTimeout := by
      push_cast
      linarith
    have less : (m : Int) < ⌈2 * c.leaseWaitTimeout⌉ := Int.lt_ceil.mpr below
    push_cast
    omega

theorem ends_look (h : Waiting c s m t) :
    Ends (lookupConsumer c) t
      (fun found u => match leased found u.wall with
        | none => Looked s (m + 1) u ∧ FoundFree c s (m + 1) u
        | some entry =>
          if waitsFrom s + c.leaseWaitTimeout ≤ u.mono then
            Looked s (m + 1) u ∧ FoundHeld p c s (m + 1) (waitedError p c entry) u
          else Waiting c s (m + 1) { u with mono := u.mono + max 0 leaseWaitPollInterval })
      (fun e u => Looked s (m + 1) u ∧ (s.moments (s.calls.length + (m + 1))).fault = some e) := by
  have moment := looked_moment h.toLooked
  have next := looked_next h.toLooked
  apply ends_lookupConsumer
  · intro e fault
    rw [moment] at fault
    exact ⟨next,fault⟩
  · intro clean
    rw [moment] at clean
    split
    · rename_i free
      exact ⟨next,clean,free_of_leased free⟩
    · rename_i entry held
      obtain ⟨found,alive⟩ := leased_some held
      split
      · rename_i due
        exact ⟨next,clean,⟨entry,found,live_iff.mp alive,rfl⟩,due⟩
      · rename_i early
        exact waiting_next h (not_le.mp early)

theorem ends_awaitLease_waits (h : Waiting c s m t) :
    Ends (awaitLease p c (waitsFrom s + c.leaseWaitTimeout)) t
      (fun _ u => ∃ m, Looked s m u ∧ (m : Int) + 1 ≤ ⌈2 * c.leaseWaitTimeout⌉ + 2 ∧
        FoundFree c s m u)
      (fun e u => ∃ m, Looked s m u ∧ (m : Int) + 1 ≤ ⌈2 * c.leaseWaitTimeout⌉ + 2 ∧
        ((s.moments (s.calls.length + m)).fault = some e ∨ FoundHeld p c s m e u)) := by
  apply ends_awaitLease (fun u => ∃ m, Waiting c s m u) _ ⟨m,h⟩
  rintro u ⟨m,h⟩
  have bound : ((m + 1 : Nat) : Int) + 1 ≤ ⌈2 * c.leaseWaitTimeout⌉ + 2 := by
    have room := h.room
    push_cast
    omega
  apply ends_mono (ends_look (p := p) h)
  · intro found u looked
    split
    · rename_i free
      simp only [free] at looked
      exact ⟨m + 1,looked.1,bound,looked.2⟩
    · rename_i entry held
      simp only [held] at looked
      split
      · rename_i due
        rw [if_pos due] at looked
        exact ⟨m + 1,looked.1,bound,Or.inr looked.2⟩
      · rename_i early
        rw [if_neg early] at looked
        exact ⟨m + 1,looked⟩
  · rintro e u ⟨looked,fault⟩
    exact ⟨m + 1,looked,bound,Or.inl fault⟩

/-- The wait policy makes at most `⌈2 T⌉ + 2` lookups and calls nothing else. It returns only
    where its last lookup found the consumer free, and times out only where that lookup
    found a live lease at the deadline or later. -/
theorem lease_wait_sound (p : Platform) (c : Config) (wait : c.leasePolicy = .wait) (s : Registry) :
    Ends (applyLeasePolicy p c) s
      (fun _ t => ∃ m, Looked s m t ∧ (m : Int) + 1 ≤ ⌈2 * c.leaseWaitTimeout⌉ + 2 ∧
        FoundFree c s m t)
      (fun e t => ∃ m, Looked s m t ∧ (m : Int) + 1 ≤ ⌈2 * c.leaseWaitTimeout⌉ + 2 ∧
        ((s.moments (s.calls.length + m)).fault = some e ∨ FoundHeld p c s m e t)) := by
  have first := waiting_first c s
  have bound : ((0 : Nat) : Int) + 1 ≤ ⌈2 * c.leaseWaitTimeout⌉ + 2 := by
    have room := first.room
    push_cast at room ⊢
    omega
  unfold applyLeasePolicy
  rw [ends_bind]
  apply ends_lookupConsumer
  · intro e fault
    exact ⟨0,looked_first s,bound,Or.inl fault⟩
  · intro clean
    rw [ends_bind, ends_get]
    split
    · rename_i free
      exact ⟨0,looked_first s,bound,clean,free_of_leased free⟩
    · simp only [wait, ends_bind, ends_get]
      exact ends_awaitLease_waits first

theorem lease_wait_sound_held :
    Ends (applyLeasePolicy Platform.plain (ordersConfig .use)) heldRun
      (fun _ t => ∃ m, Looked heldRun m t ∧
        (m : Int) + 1 ≤ ⌈2 * (ordersConfig .use).leaseWaitTimeout⌉ + 2 ∧
        FoundFree (ordersConfig .use) heldRun m t)
      (fun e t => ∃ m, Looked heldRun m t ∧
        (m : Int) + 1 ≤ ⌈2 * (ordersConfig .use).leaseWaitTimeout⌉ + 2 ∧
        ((heldRun.moments (heldRun.calls.length + m)).fault = some e ∨
          FoundHeld Platform.plain (ordersConfig .use) heldRun m e t)) :=
  lease_wait_sound Platform.plain (ordersConfig .use) rfl heldRun

end
end CdcLeaseWait
