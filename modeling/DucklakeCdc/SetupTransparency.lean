import DucklakeCdc.SetupRetries

/-!
Whether transient failures can be seen in the outcome of `__enter__`'s setup. With
`on_exists='error'`, a failure right after the consumer was created makes the retry find
the consumer it created itself. Otherwise nothing is seen but the clock: a later attempt
may meet a lease that the first one would not have met, or the other way round.
-/
namespace CdcSetupTransparency
open Programs CdcRetry CdcSetup CdcSetupRetries

def outcome (program : Setup Unit) (s : Registry) : Option ExcClass × Catalog :=
  match program.run s with
  | .ok _ t => (none,t.entries)
  | .error e t => (some e.cls,t.entries)

def faultless (moments : Nat → Moment) : Nat → Moment := fun i => { moments i with fault := none }

def withoutFaults (s : Registry) : Registry := { s with moments := faultless s.moments }

@[simp] theorem withoutFaults_entries (s : Registry) : (withoutFaults s).entries = s.entries := rfl

/-- The outcome is the one the same run has without failures. -/
def Transparent (program : Setup Unit) (s : Registry) : Prop :=
  (outcome program s).1 = (outcome program (withoutFaults s)).1 ∧
    ∀ entry, entry ∈ (outcome program s).2 ↔
      entry ∈ (outcome program (withoutFaults s)).2

/-- The first create that gets through is followed by a listing that fails. -/
def CreationLost (moments : Nat → Moment) (first : Nat) : Prop :=
  ∃ k, (∀ i < k, ¬ Clean moments (first + i)) ∧ Clean moments (first + k) ∧
    ¬ Clean moments (first + k + 1)

/-- The first attempt that no failure hits meets the lease as the first attempt would. -/
def SameLease (c : Config) (moments : Nat → Moment) (entry : ConsumerListEntry) (first : Nat) :
    Prop :=
  ∀ i, FirstUnhit c moments entry first i →
    (Held c moments entry i ↔ Held c moments entry first)

/-- Setups in which only the calls at `faulty` fail, transiently and before they take
    effect, and no other process acts. The errors that setup itself raises are not
    transient. -/
structure TransientFailures (p : Platform) (c : Config) (s : Registry) (faulty : Finset Nat) :
    Prop where
  counted : ∀ i, (s.moments i).fault ≠ none → i ∈ faulty
  transient : ∀ i e, (s.moments i).fault = some e → isTransientError e = true
  foreign : ∀ i e, (s.moments i).fault = some e →
    isDuplicateConsumerError e c.name = false ∧ isMissingConsumerError e c.name = false
  alone : ∀ i, (s.moments i).others = id
  taken : c.onExists = .error → s.entries.has c.name = true →
    isTransientError (existsError p c) = false
  leased : c.onExists = .use → ∀ entry ∈ s.entries, entry.consumerName = c.name →
    Ordinary p c entry

variable {p : Platform} {c : Config} {f : Forecast} {n : Nat} {s : Registry}

theorem outcome_of_ends {program : Setup Unit} {V : Option Exc × Catalog → Prop}
    (h : Ends program s (fun _ t => V (none,t.entries)) (fun e t => V (some e,t.entries))) :
    ∃ v, V v ∧ outcome program s = (v.1.map Exc.cls,v.2) := by
  obtain ⟨_,_,run,here⟩ | ⟨_,_,run,here⟩ := ends_cases h
  · exact ⟨_,here,by rw [outcome, run]; rfl⟩
  · exact ⟨_,here,by rw [outcome, run]; rfl⟩

theorem ends_lease_new (setting : Setting c f) (h : Standing f n s)
    (new : lookup c.name s.entries = some (createdEntry c.name)) :
    Ends (applyLeasePolicy p c) s
      (fun _ t => t.entries = s.entries ∧ s.moment.fault = none)
      (fun e t => s.moment.fault = some e ∧ t = s.arrive .list) := by
  unfold applyLeasePolicy
  rw [ends_bind]
  apply ends_lookupConsumer
  · intro e fault
    exact ⟨fault,rfl⟩
  · intro clean
    have unchanged := arrive_entries setting h .list
    rw [unchanged, new, ends_bind, ends_get]
    exact ⟨unchanged,clean⟩

def CutShort (c : Config) (f : Forecast) (n : Nat) (s : Registry) (e : Exc) (t : Registry) :
    Prop :=
  isTransientError e = true ∧ ∃ m, n = m + 1 ∧ Standing f m t ∧
    (¬ Clean f.moments s.calls.length ∧ t.entries = s.entries ∧
        t.calls.length = s.calls.length + 1 ∨
      Clean f.moments s.calls.length ∧ ¬ Clean f.moments (s.calls.length + 1) ∧
        t.entries = s.entries ++ [createdEntry c.name])

theorem ends_lease_created (setting : Setting c f) (free : s.entries.has c.name = false)
    (clean : Clean f.moments s.calls.length) (t : Registry) (h : Standing f n t)
    (entries : t.entries = s.entries ++ [createdEntry c.name])
    (calls : t.calls.length = s.calls.length + 1) :
    Ends (applyLeasePolicy p c) t
      (fun _ u => u.entries = s.entries ++ [createdEntry c.name] ∧
        Clean f.moments s.calls.length ∧ Clean f.moments (s.calls.length + 1))
      (CutShort c f n s) := by
  have new : lookup c.name t.entries = some (createdEntry c.name) := by
    rw [entries]
    exact lookup_append_created free
  apply ends_mono (ends_lease_new setting h new)
  · intro _ u facts
    obtain ⟨kept,listed⟩ := facts
    rw [← clean_iff h, calls] at listed
    exact ⟨kept.trans entries,clean,listed⟩
  · intro e u facts
    obtain ⟨fault,arrived⟩ := facts
    subst u
    obtain ⟨transient,m,spent,standing⟩ := arrive_failed setting h .list fault
    have failed := not_clean h fault
    rw [calls] at failed
    refine ⟨transient,m,spent,standing,Or.inr ⟨clean,failed,?_⟩⟩
    rw [arrive_entries setting h, entries]

theorem ends_setup_new (setting : Setting c f) (error : c.onExists = .error)
    (h : Standing f n s) (free : s.entries.has c.name = false) :
    Ends (setupAndApplyLeasePolicy p c) s
      (fun _ t => t.entries = s.entries ++ [createdEntry c.name] ∧
        Clean f.moments s.calls.length ∧ Clean f.moments (s.calls.length + 1))
      (CutShort c f n s) := by
  unfold setupAndApplyLeasePolicy setupConsumer
  simp only [error, reduceCtorEq, if_false, ends_bind]
  apply ends_tryCreate setting h
  · intro e fault
    obtain ⟨transient,m,spent,kept⟩ := arrive_failed setting h (.create c.name) fault
    refine ⟨transient,m,spent,kept,Or.inl ⟨not_clean h fault,arrive_entries setting h _,?_⟩⟩
    exact length_arrive _
  · intro _ present
    rw [free] at present
    contradiction
  · intro clean _
    simp only [if_true, ends_pure]
    apply ends_lease_created setting free ((clean_iff h).mpr clean)
    · exact standing_entries (arrive_standing h (.create c.name)) _
    · rfl
    · exact length_arrive (.create c.name)

theorem ends_new_kept (setting : Setting c f) (error : c.onExists = .error) (rest : ℚ)
    (kept : ¬ CreationLost f.moments f.first) (h : Standing f n s)
    (free : s.entries.has c.name = false) (start : s.calls.length = f.first) :
    Ends (attempts (sleep rest) (setupAndApplyLeasePolicy p c) n) s
      (fun _ t => t.entries = s.entries ++ [createdEntry c.name]) (fun _ _ => False) := by
  apply ends_attempts_budget (fun n t => Standing f n t ∧ t.entries = s.entries ∧
    ∃ k, t.calls.length = f.first + k ∧ ∀ i < k, ¬ Clean f.moments (f.first + i))
  · intro n t facts
    obtain ⟨standing,same,k,calls,failed⟩ := facts
    have absent : t.entries.has c.name = false := by rw [same, free]
    apply ends_mono (ends_setup_new setting error standing absent)
    · intro _ u facts
      obtain ⟨created,_,_⟩ := facts
      rw [created, same]
    · intro e u facts
      obtain ⟨transient,m,spent,left,cut⟩ := facts
      rw [isTransient_exc, if_pos transient]
      rw [calls] at cut
      rcases cut with ⟨fault,unchanged,next⟩ | ⟨clean,fault,_⟩
      · refine ⟨m,spent,left,unchanged.trans same,k + 1,by omega,?_⟩
        intro i before
        by_cases earlier : i < k
        · exact failed i earlier
        · obtain rfl : i = k := by omega
          exact fault
      · exact absurd ⟨k,failed,clean,fault⟩ kept
  · intro n t facts
    obtain ⟨standing,same,k,calls,failed⟩ := facts
    exact ⟨standing_mono standing _,same,k,calls,failed⟩
  · refine ⟨h,rfl,0,start,?_⟩
    intro i none_before
    omega

def Losing (c : Config) (f : Forecast) (entries : Catalog) (lostAt : Nat) (s : Registry) : Prop :=
  ∃ n, Standing f n s ∧ (s.entries.has c.name = true ∨
    s.entries = entries ∧ ∃ k ≤ lostAt, s.calls.length = f.first + k)

theorem ends_losing (setting : Setting c f) (error : c.onExists = .error) {entries : Catalog}
    (free : entries.has c.name = false) {lostAt : Nat}
    (failed : ∀ i < lostAt, ¬ Clean f.moments (f.first + i))
    (clean : Clean f.moments (f.first + lostAt))
    (fault : ¬ Clean f.moments (f.first + lostAt + 1)) (h : Losing c f entries lostAt s) :
    Ends (setupAndApplyLeasePolicy p c) s (fun _ _ => False)
      (fun _ t => Losing c f entries lostAt t) := by
  obtain ⟨n,standing,taken | ⟨same,k,within,calls⟩⟩ := h
  · apply ends_mono (ends_setup_taken setting error standing taken) (fun _ _ no => no)
    intro e t ended
    rcases ended with ⟨_,left,unchanged⟩ | ⟨_,m,_,left,unchanged⟩
    · exact ⟨n,left,Or.inl (by rw [unchanged, taken])⟩
    · exact ⟨m,left,Or.inl (by rw [unchanged, taken])⟩
  · have here : Clean f.moments (f.first + k) → k = lostAt := by
      intro clean_here
      by_contra other
      exact failed k (by omega) clean_here
    apply ends_mono (ends_setup_new setting error standing (by rw [same, free]))
    · intro _ t facts
      obtain ⟨_,first,second⟩ := facts
      rw [calls] at first second
      rw [here first] at second
      exact fault second
    · intro e t facts
      obtain ⟨_,m,_,left,cut⟩ := facts
      rw [calls] at cut
      refine ⟨m,left,?_⟩
      rcases cut with ⟨broken,unchanged,next⟩ | ⟨_,_,created⟩
      · right
        have other : k ≠ lostAt := by
          intro same_call
          subst k
          exact broken clean
        exact ⟨unchanged.trans same,k + 1,by omega,by omega⟩
      · left
        rw [created]
        exact has_append_created

/-- A creation that is lost keeps setup from ever succeeding: the name is taken then. -/
theorem ends_new_lost (setting : Setting c f) (error : c.onExists = .error) (rest : ℚ)
    (lost : CreationLost f.moments f.first) (h : Standing f n s)
    (free : s.entries.has c.name = false) (start : s.calls.length = f.first) :
    Ends (attempts (sleep rest) (setupAndApplyLeasePolicy p c) n) s
      (fun _ _ => False) (fun _ _ => True) := by
  obtain ⟨lostAt,failed,clean,fault⟩ := lost
  have attempt : ∀ t, Losing c f s.entries lostAt t →
      Ends (setupAndApplyLeasePolicy p c) t (fun _ _ => False)
        (fun _ u => True ∧ Losing c f s.entries lostAt u) := by
    intro t losing
    apply ends_mono (ends_losing setting error free failed clean fault losing) (fun _ _ no => no)
    exact fun _ _ left => ⟨trivial,left⟩
  apply ends_attempts attempt
  · intro t losing
    obtain ⟨n,standing,position⟩ := losing
    exact ⟨n,standing_mono standing _,position⟩
  · exact ⟨n,h,Or.inr ⟨rfl,0,by omega,start⟩⟩

section
variable {faulty : Finset Nat} {maxAttempts : Int}

def forecast (s : Registry) (faulty : Finset Nat) : Forecast := ⟨s.moments,s.calls.length,faulty⟩

theorem setting_of_failures (runs : TransientFailures p c s faulty) :
    Setting c (forecast s faulty) :=
  ⟨runs.alone,runs.transient,runs.foreign,runs.counted⟩

theorem standing_of_failures {n : Nat} (few : faulty.card ≤ n) :
    Standing (forecast s faulty) n s := by
  constructor
  · rfl
  · exact le_refl _
  · exact le_trans (Finset.card_filter_le _ _) few

theorem failures_removed (runs : TransientFailures p c s faulty) :
    TransientFailures p c (withoutFaults s) ∅ where
  counted _ fault := absurd rfl fault
  transient _ _ fault := by cases fault
  foreign _ _ fault := by cases fault
  alone := runs.alone
  taken := runs.taken
  leased := runs.leased

theorem retriedSetup_eq (few : (faulty.card : Int) < maxAttempts) (baseSleep : ℚ) :
    retriedSetup p c (.retryOnTransient maxAttempts baseSleep) =
      attempts (sleep baseSleep) (setupAndApplyLeasePolicy p c) (maxAttempts - 1).toNat := by
  have some_attempt : ¬ maxAttempts < 1 := by omega
  simp [retriedSetup, RetryPolicy.run, retryOnTransient, some_attempt]

theorem outcome_replace (runs : TransientFailures p c s faulty)
    (few : (faulty.card : Int) < maxAttempts) (baseSleep : ℚ) (replace : c.onExists = .replace) :
    outcome (retriedSetup p c (.retryOnTransient maxAttempts baseSleep)) s =
      (none,without c.name s.entries ++ [createdEntry c.name]) := by
  have retried := ends_retried_replace (p := p) (setting_of_failures runs) replace baseSleep
    (standing_of_failures (n := (maxAttempts - 1).toNat) (by omega))
  rw [retriedSetup_eq few]
  obtain ⟨v,same,answer⟩ := outcome_of_ends
    (V := fun v => v = (none,without c.name s.entries ++ [createdEntry c.name]))
    (ends_mono retried (fun _ _ same => by rw [same]) (fun _ _ no => no.elim))
  rw [answer, same]
  rfl

theorem outcome_taken (runs : TransientFailures p c s faulty)
    (few : (faulty.card : Int) < maxAttempts) (baseSleep : ℚ) (error : c.onExists = .error)
    (taken : s.entries.has c.name = true) :
    outcome (retriedSetup p c (.retryOnTransient maxAttempts baseSleep)) s =
      (some .runtimeError,s.entries) := by
  have retried := ends_retried_taken (setting_of_failures runs) error (runs.taken error taken)
    baseSleep (standing_of_failures (n := (maxAttempts - 1).toNat) (by omega)) taken
  rw [retriedSetup_eq few]
  obtain ⟨v,same,answer⟩ := outcome_of_ends (V := fun v => v = (some (existsError p c),s.entries))
    (ends_mono retried (fun _ _ no => no.elim) (fun e t facts => by rw [facts.1, facts.2]))
  rw [answer, same]
  rfl

theorem outcome_new_kept (runs : TransientFailures p c s faulty)
    (few : (faulty.card : Int) < maxAttempts) (baseSleep : ℚ) (error : c.onExists = .error)
    (free : s.entries.has c.name = false) (kept : ¬ CreationLost s.moments s.calls.length) :
    outcome (retriedSetup p c (.retryOnTransient maxAttempts baseSleep)) s =
      (none,s.entries ++ [createdEntry c.name]) := by
  have retried := ends_new_kept (p := p) (setting_of_failures runs) error baseSleep kept
    (standing_of_failures (n := (maxAttempts - 1).toNat) (by omega)) free rfl
  rw [retriedSetup_eq few]
  obtain ⟨v,same,answer⟩ := outcome_of_ends
    (V := fun v => v = (none,s.entries ++ [createdEntry c.name]))
    (ends_mono retried (fun _ _ same => by rw [same]) (fun _ _ no => no.elim))
  rw [answer, same]
  rfl

theorem outcome_new_lost (runs : TransientFailures p c s faulty)
    (few : (faulty.card : Int) < maxAttempts) (baseSleep : ℚ) (error : c.onExists = .error)
    (free : s.entries.has c.name = false) (lost : CreationLost s.moments s.calls.length) :
    (outcome (retriedSetup p c (.retryOnTransient maxAttempts baseSleep)) s).1 ≠ none := by
  have retried := ends_new_lost (p := p) (setting_of_failures runs) error baseSleep lost
    (standing_of_failures (n := (maxAttempts - 1).toNat) (by omega)) free rfl
  rw [retriedSetup_eq few]
  obtain ⟨v,failed,answer⟩ := outcome_of_ends (V := fun v => v.1 ≠ none)
    (ends_mono retried (fun _ _ no => no.elim) (fun e _ _ => Option.some_ne_none e))
  rw [answer]
  simpa using failed

theorem not_lost_faultless (first : Nat) : ¬ CreationLost (faultless s.moments) first := by
  intro facts
  obtain ⟨k,_,_,fault⟩ := facts
  exact fault rfl

theorem using_of_failures {entry : ConsumerListEntry} {n : Nat} (few : faulty.card ≤ n) :
    Using c (forecast s faulty) entry (settled c.name s.entries) n s := by
  refine ⟨standing_of_failures few,rfl,?_⟩
  intro j above below
  have later : s.calls.length ≤ j := above
  omega

theorem ordinary_of_failures {entry : ConsumerListEntry} (runs : TransientFailures p c s faulty)
    (use : c.onExists = .use) (found : lookup c.name (settled c.name s.entries) = some entry) :
    Ordinary p c entry := by
  cases present : s.entries.has c.name with
  | true =>
    rw [settled_taken present] at found
    obtain ⟨member,named⟩ := lookup_mem found
    exact runs.leased use entry member named
  | false =>
    rw [settled_free present, lookup_append_created present] at found
    cases found
    intro owned
    exact absurd rfl owned

theorem outcome_use {entry : ConsumerListEntry} (runs : TransientFailures p c s faulty)
    (few : (faulty.card : Int) < maxAttempts) (baseSleep : ℚ) (use : c.onExists = .use)
    (found : lookup c.name (settled c.name s.entries) = some entry) :
    ∃ i, FirstUnhit c s.moments entry s.calls.length i ∧
      outcome (retriedSetup p c (.retryOnTransient maxAttempts baseSleep)) s =
        ((leaseVerdict p c (Held c s.moments entry i) entry (settled c.name s.entries)).1.map
            Exc.cls,
          (leaseVerdict p c (Held c s.moments entry i) entry (settled c.name s.entries)).2) := by
  have retried := ends_retried_use (setting_of_failures runs) use
    (ordinary_of_failures runs use found) found baseSleep
    (using_of_failures (n := (maxAttempts - 1).toNat) (by omega))
  rw [retriedSetup_eq few]
  obtain ⟨v,decided,answer⟩ := outcome_of_ends (V := fun v =>
    ∃ i, FirstUnhit c s.moments entry s.calls.length i ∧
      leaseVerdict p c (Held c s.moments entry i) entry (settled c.name s.entries) = v) retried
  obtain ⟨i,first,same⟩ := decided
  exact ⟨i,first,by rw [same, answer]⟩

theorem outcome_use_faultless {entry : ConsumerListEntry} (runs : TransientFailures p c s faulty)
    (few : (faulty.card : Int) < maxAttempts) (baseSleep : ℚ) (use : c.onExists = .use)
    (found : lookup c.name (settled c.name s.entries) = some entry) :
    outcome (retriedSetup p c (.retryOnTransient maxAttempts baseSleep)) (withoutFaults s) =
      ((leaseVerdict p c (Held c s.moments entry s.calls.length) entry
          (settled c.name s.entries)).1.map Exc.cls,
        (leaseVerdict p c (Held c s.moments entry s.calls.length) entry
          (settled c.name s.entries)).2) := by
  have removed := failures_removed runs
  have none_few : ((∅ : Finset Nat).card : Int) < maxAttempts := by
    rw [Finset.card_empty]
    omega
  obtain ⟨i,first,answer⟩ := outcome_use removed none_few baseSleep use found
  have unhit := unhit_of_faultless (setting_of_failures removed) use
    (ordinary_of_failures removed use found) found (using_of_failures (le_refl _))
  obtain rfl := firstUnhit_unique first (firstUnhit_start unhit)
  exact answer

theorem verdict_seen {entry : ConsumerListEntry} {entries : Catalog} {held : Prop}
    (member : entry ∈ entries) (named : entry.consumerName = c.name) (stands : held)
    (owned : entry.ownerToken ≠ none)
    (kind : (leaseVerdict p c held entry entries).1.map Exc.cls = none)
    (members : ∀ other, other ∈ (leaseVerdict p c held entry entries).2 ↔ other ∈ entries) :
    False := by
  cases policy : c.leasePolicy with
  | error => simp [leaseVerdict, stands, policy] at kind
  | takeover =>
    simp only [leaseVerdict, policy, if_pos stands] at members
    exact owned (unowned_of_released named ((members entry).mpr member))
  | wait => simp [leaseVerdict, stands, policy] at kind

/-- Under `use`, the failures are seen just when the attempt that goes through meets
    another lease than the first attempt would. -/
theorem transparent_use_iff {entry : ConsumerListEntry} (runs : TransientFailures p c s faulty)
    (few : (faulty.card : Int) < maxAttempts) (baseSleep : ℚ) (use : c.onExists = .use)
    (found : lookup c.name (settled c.name s.entries) = some entry) :
    Transparent (retriedSetup p c (.retryOnTransient maxAttempts baseSleep)) s ↔
      SameLease c s.moments entry s.calls.length := by
  obtain ⟨i,first,retried⟩ := outcome_use runs few baseSleep use found
  have clean := outcome_use_faultless runs few baseSleep use found
  obtain ⟨member,named⟩ := lookup_mem found
  unfold Transparent
  rw [retried, clean]
  constructor
  · intro same k other
    obtain ⟨kinds,members⟩ := same
    obtain rfl : k = i := firstUnhit_unique other first
    constructor
    · intro held
      by_contra free
      rw [leaseVerdict_free free] at kinds members
      exact verdict_seen member named held (owned_of_alive held.1) kinds members
    · intro held
      by_contra free
      rw [leaseVerdict_free free] at kinds members
      exact verdict_seen member named held (owned_of_alive held.1) kinds.symm
        fun other => (members other).symm
  · intro same
    rw [propext (same i first)]
    exact ⟨rfl,fun _ => Iff.rfl⟩

theorem sameLease_created {moments : Nat → Moment} {first : Nat} :
    SameLease c moments (createdEntry c.name) first := by
  have free : ∀ i, ¬ Held c moments (createdEntry c.name) i :=
    fun i held => owned_of_alive held.1 rfl
  intro i _
  exact iff_of_false (free i) (free first)

/-- The outcome shows the transient failures in two ways: `on_exists='error'` made a
    consumer and lost it to a failure of the listing that follows, or the clock took
    another turn with the lease of a consumer that is used. -/
theorem retried_setup_transparent_iff (p : Platform) (c : Config) (maxAttempts : Int)
    (baseSleep : ℚ) (s : Registry) (faulty : Finset Nat)
    (runs : TransientFailures p c s faulty) (few : (faulty.card : Int) < maxAttempts) :
    Transparent (retriedSetup p c (.retryOnTransient maxAttempts baseSleep)) s ↔
      ¬ (c.onExists = .error ∧ s.entries.has c.name = false ∧
        CreationLost s.moments s.calls.length) ∧
      (c.onExists = .use → ∀ entry, lookup c.name s.entries = some entry →
        SameLease c s.moments entry s.calls.length) := by
  have removed := failures_removed runs
  have none_few : ((∅ : Finset Nat).card : Int) < maxAttempts := by
    rw [Finset.card_empty]
    omega
  cases policy : c.onExists with
  | replace =>
    have retried := outcome_replace runs few baseSleep policy
    have clean := outcome_replace removed none_few baseSleep policy
    simp [Transparent, retried, clean]
  | error =>
    cases present : s.entries.has c.name with
    | true =>
      have retried := outcome_taken runs few baseSleep policy present
      have clean := outcome_taken removed none_few baseSleep policy present
      simp [Transparent, retried, clean]
    | false =>
      have clean := outcome_new_kept removed none_few baseSleep policy present
        (not_lost_faultless _)
      by_cases lost : CreationLost s.moments s.calls.length
      · have failed := outcome_new_lost runs few baseSleep policy present lost
        simp [Transparent, clean, failed, lost]
      · have retried := outcome_new_kept runs few baseSleep policy present lost
        simp [Transparent, retried, clean, lost]
  | use =>
    obtain ⟨entry,found⟩ := lookup_settled c.name s.entries
    rw [transparent_use_iff runs few baseSleep policy found]
    cases present : s.entries.has c.name with
    | true =>
      rw [settled_taken present] at found
      simp [found]
    | false =>
      rw [settled_free present, lookup_append_created present] at found
      cases found
      simp [sameLease_created, lookup_of_free present]

def locked : Exc := queryFailed "IO Error: database is locked"

theorem failures_of_locked (named : c.name = "orders")
    (only : ∀ i, (s.moments i).fault = if i = 1 then some locked else none)
    (alone : ∀ i, (s.moments i).others = id)
    (taken : isTransientError (existsError Platform.plain c) = false)
    (leased : ∀ entry ∈ s.entries, Ordinary Platform.plain c entry) :
    TransientFailures Platform.plain c s {1} := by
  have is_locked : ∀ i e, (s.moments i).fault = some e → e = locked := by
    intro i e fault
    rw [only] at fault
    split at fault
    · exact (Option.some.inj fault).symm
    · cases fault
  constructor
  · intro i fault
    by_contra other
    rw [only] at fault
    exact fault (if_neg (by simpa using other))
  · intro i e fault
    rw [is_locked i e fault]
    decide +kernel
  · intro i e fault
    rw [is_locked i e fault, named]
    decide +kernel
  · exact alone
  · intro _ _
    exact taken
  · intro _ entry member _
    exact leased entry member

/-- A lease that ends while the setup waits for it, and a listing that fails once. -/
def waitingRun : Registry where
  entries := [ordersLease]
  moments i := { wall := if i < 3 then 0 else 100, fault := if i = 1 then some locked else none }

theorem waitingRun_failures :
    TransientFailures Platform.plain (ordersConfig .use) waitingRun {1} := by
  apply failures_of_locked rfl (fun _ => rfl) (fun _ => rfl)
  · decide +kernel
  · intro entry member _
    obtain rfl : entry = ordersLease := by simpa [waitingRun] using member
    decide +kernel

theorem retried_setup_transparent_waiting :
    Transparent (retriedSetup Platform.plain (ordersConfig .use) (.retryOnTransient 5 (1 / 5)))
        waitingRun ↔
      ¬ ((ordersConfig .use).onExists = .error ∧
        waitingRun.entries.has (ordersConfig .use).name = false ∧
        CreationLost waitingRun.moments waitingRun.calls.length) ∧
      ((ordersConfig .use).onExists = .use → ∀ entry,
        lookup (ordersConfig .use).name waitingRun.entries = some entry →
        SameLease (ordersConfig .use) waitingRun.moments entry waitingRun.calls.length) :=
  retried_setup_transparent_iff Platform.plain (ordersConfig .use) 5 (1 / 5) waitingRun {1}
    waitingRun_failures (by decide)

/-- An empty catalog: the create gets through, the listing after it fails once. -/
def lostRun : Registry where
  entries := []
  moments i := { fault := if i = 1 then some locked else none }

theorem new_consumer_reported_existing :
    TransientFailures Platform.plain (ordersConfig .error) lostRun {1} ∧
      outcome (retriedSetup Platform.plain (ordersConfig .error) (.retryOnTransient 5 (1 / 5)))
        lostRun = (some .runtimeError,[createdEntry "orders"]) ∧
      outcome (retriedSetup Platform.plain (ordersConfig .error) (.retryOnTransient 5 (1 / 5)))
        (withoutFaults lostRun) = (none,[createdEntry "orders"]) ∧
      ¬ Transparent (retriedSetup Platform.plain (ordersConfig .error)
        (.retryOnTransient 5 (1 / 5))) lostRun := by
  have failing : outcome (retriedSetup Platform.plain (ordersConfig .error)
      (.retryOnTransient 5 (1 / 5))) lostRun = (some .runtimeError,[createdEntry "orders"]) := by
    decide +kernel
  have clean : outcome (retriedSetup Platform.plain (ordersConfig .error)
      (.retryOnTransient 5 (1 / 5))) (withoutFaults lostRun) = (none,[createdEntry "orders"]) := by
    decide +kernel
  refine ⟨?_,failing,clean,?_⟩
  · apply failures_of_locked rfl (fun _ => rfl) (fun _ => rfl)
    · decide +kernel
    · intro entry member
      cases member
  · intro same
    have kinds := same.1
    rw [failing, clean] at kinds
    contradiction

end
end CdcSetupTransparency
