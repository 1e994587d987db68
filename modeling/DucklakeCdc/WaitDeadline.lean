import DucklakeCdc.LeaseWaiting
import DucklakeCdc.RefusalTexts

/-!
How long `open()` waits for a lease that stays alive. The wait stands inside the retry of
the whole setup, so an attempt that a failed lookup cuts off is followed by one with a
deadline of its own. The programs of the setup are repeated over a state that also keeps
the looks and the sleeps; they end as those they repeat.
-/
namespace CdcWaitDeadline
open Programs CdcRetry CdcSetup CdcLifecycle CdcLeaseRespect CdcLeaseWait CdcRefusals

/-- A lookup, with the clock, and whether it saw a live lease; a sleep of the wait loop; a
    sleep of the retry. -/
inductive Mark where
  | looked (live : Bool) (clock : ℚ)
  | polled
  | retried (seconds : ℚ)
  deriving DecidableEq

structure Watch where
  registry : Registry
  marks : List Mark := []

abbrev Watched := EStateM Exc Watch

def onRegistry {α : Type} (q : Setup α) : Watched α :=
  within Watch.registry (fun u s => { u with registry := s }) q

def note (m : Mark) : Watched Unit := modify fun u => { u with marks := u.marks ++ [m] }

def retrySleep (seconds : ℚ) : Watched Unit := do
  onRegistry (sleep seconds)
  note (.retried seconds)

def lookupConsumer (c : Config) : Watched (Option ConsumerListEntry) := do
  let found ← onRegistry (CdcSetup.lookupConsumer c)
  let u ← get
  note (.looked (leased found u.registry.wall).isSome u.registry.mono)
  pure found

def Watch.polled (u : Watch) : Watch where
  registry := { u.registry with mono := u.registry.mono + max 0 leaseWaitPollInterval }
  marks := u.marks ++ [.polled]

theorem lookupConsumer_mono {c : Config} {u v : Watch} {found : Option ConsumerListEntry}
    (looked : (lookupConsumer c).run u = .ok found v) : u.registry.mono ≤ v.registry.mono := by
  have ends : Ends (lookupConsumer c) u (fun _ v => u.registry.mono ≤ v.registry.mono)
      (fun _ _ => True) := by
    simp only [lookupConsumer, onRegistry, note, ends_bind, ends_within, ends_get, ends_modify,
      ends_pure]
    apply ends_lookupConsumer
    · exact fun _ _ => trivial
    · intro _
      simp [Registry.arrive]
  rwa [ends_of_ok looked] at ends

section
variable (p : Platform)

def awaitLease (c : Config) (deadline : ℚ) : Watched Unit := fun u =>
  match _looked : (lookupConsumer c).run u with
  | .error e v => .error e v
  | .ok found v =>
    match leased found v.registry.wall with
    | none => .ok () v
    | some entry =>
      if _due : deadline ≤ v.registry.mono then .error (waitedError p c entry) v
      else awaitLease c deadline v.polled
termination_by u => ⌈2 * (deadline - u.registry.mono)⌉.toNat
decreasing_by exact wait_shrinks (lookupConsumer_mono _looked) _due

def applyLeasePolicy (c : Config) : Watched Unit := do
  let found ← lookupConsumer c
  let u ← get
  match leased found u.registry.wall with
  | none => pure ()
  | some entry => match c.leasePolicy with
    | .error => throw (leasedError p c entry)
    | .takeover => onRegistry (cdcConsumerForceRelease p c.name)
    | .wait => do
      let u ← get
      awaitLease p c (u.registry.mono + c.leaseWaitTimeout)

def setupAndApplyLeasePolicy (c : Config) : Watched Unit := do
  onRegistry (setupConsumer p c)
  if c.onExists = .replace then pure ()
  else applyLeasePolicy p c

end

def Same (u : Watch) (s : Registry) : Prop := u.registry = s

section
variable {p : Platform} {c : Config} {u : Watch} {deadline : ℚ}

theorem onRegistry_inStep {α : Type} (q : Setup α) (u : Watch) :
    InStep Same (onRegistry q) u q u.registry :=
  inStep_within (fun _ _ => rfl) q u

theorem lookupConsumer_inStep (u : Watch) :
    InStep Same (lookupConsumer c) u (CdcSetup.lookupConsumer c) u.registry := by
  have looked := onRegistry_inStep (CdcSetup.lookupConsumer c) u
  unfold InStep lookupConsumer at *
  rw [EStateM.run_bind]
  generalize (onRegistry (CdcSetup.lookupConsumer c)).run u = x at looked
  generalize (CdcSetup.lookupConsumer c).run u.registry = y at looked
  cases looked with
  | ok same => exact .ok same
  | error same => exact .error same

theorem run_awaitLease (s : Registry) : (CdcSetup.awaitLease p c deadline).run s =
    match (CdcSetup.lookupConsumer c).run s with
    | .error e t => .error e t
    | .ok found t =>
      match leased found t.wall with
      | none => .ok () t
      | some entry =>
        if deadline ≤ t.mono then .error (waitedError p c entry) t
        else (CdcSetup.awaitLease p c deadline).run
          { t with mono := t.mono + max 0 leaseWaitPollInterval } := by
  conv_lhs => rw [EStateM.run, CdcSetup.awaitLease]
  split
  · rename_i e t looked
    rw [looked]
  · rename_i found t looked
    rw [looked]
    dsimp only
    cases leased found t.wall with
    | none => rfl
    | some entry =>
      dsimp only
      split <;> rfl

theorem run_awaitLease_watched (u : Watch) : (awaitLease p c deadline).run u =
    match (lookupConsumer c).run u with
    | .error e v => .error e v
    | .ok found v =>
      match leased found v.registry.wall with
      | none => .ok () v
      | some entry =>
        if deadline ≤ v.registry.mono then .error (waitedError p c entry) v
        else (awaitLease p c deadline).run v.polled := by
  conv_lhs => rw [EStateM.run, awaitLease]
  split
  · rename_i e v looked
    rw [looked]
  · rename_i found v looked
    rw [looked]
    dsimp only
    split
    · rfl
    · split <;> rfl

theorem run_lookup (u : Watch) : (CdcSetup.lookupConsumer c).run u.registry =
    match (lookupConsumer c).run u with
    | .ok found v => .ok found v.registry
    | .error e v => .error e v.registry := by
  have same := lookupConsumer_inStep (c := c) u
  unfold InStep at same
  generalize (lookupConsumer c).run u = x at same
  generalize (CdcSetup.lookupConsumer c).run u.registry = y at same
  cases same with
  | ok same => exact congrArg _ same.symm
  | error same => exact congrArg _ same.symm

theorem awaitLease_inStep (deadline : ℚ) (u : Watch) :
    InStep Same (awaitLease p c deadline) u (CdcSetup.awaitLease p c deadline) u.registry := by
  induction u using awaitLease.induct c deadline with
  | case1 u e v looked =>
    rw [InStep, run_awaitLease, run_awaitLease_watched, run_lookup, looked]
    exact .error rfl
  | case2 u found v looked free =>
    rw [InStep, run_awaitLease, run_awaitLease_watched, run_lookup, looked]
    simp only [free]
    exact .ok rfl
  | case3 u found v looked entry held due =>
    rw [InStep, run_awaitLease, run_awaitLease_watched, run_lookup, looked]
    simp only [held, if_pos due]
    exact .error rfl
  | case4 u found v looked entry held due ih =>
    rw [InStep, run_awaitLease, run_awaitLease_watched, run_lookup, looked]
    simp only [held, if_neg due]
    exact ih

/-- The watched setup ends as the setup of the model does. -/
theorem setup_inStep (u : Watch) : InStep Same (setupAndApplyLeasePolicy p c) u
    (CdcSetup.setupAndApplyLeasePolicy p c) u.registry := by
  unfold setupAndApplyLeasePolicy CdcSetup.setupAndApplyLeasePolicy
  apply inStep_bind (onRegistry_inStep _ u) (ends_total _ _) _ (fun _ _ same => same)
  rintro _ v _ rfl _
  split
  · exact .ok rfl
  unfold applyLeasePolicy CdcSetup.applyLeasePolicy
  apply inStep_bind (lookupConsumer_inStep v) (ends_total _ _) _ (fun _ _ same => same)
  rintro found v _ rfl _
  apply inStep_get
  cases leased found v.registry.wall with
  | none => exact .ok rfl
  | some entry =>
    cases c.leasePolicy with
    | error => exact .error rfl
    | takeover => exact onRegistry_inStep _ v
    | wait => exact inStep_get (awaitLease_inStep _ v)

theorem ends_awaitLease_watched {ok : Unit → Watch → Prop} {err : Exc → Watch → Prop} :
    Ends (awaitLease p c deadline) u ok err ↔
      Ends (lookupConsumer c) u
        (fun found v => match leased found v.registry.wall with
          | none => ok () v
          | some entry =>
            if deadline ≤ v.registry.mono then err (waitedError p c entry) v
            else Ends (awaitLease p c deadline) v.polled ok err) err := by
  simp only [Ends]
  rw [run_awaitLease_watched]
  cases (lookupConsumer c).run u with
  | error e v => rfl
  | ok found v =>
    dsimp only
    cases leased found v.registry.wall with
    | none => rfl
    | some entry =>
      dsimp only
      by_cases due : deadline ≤ v.registry.mono
      · simp only [if_pos due]
      · simp only [if_neg due]

end

def polls (marks : List Mark) : Nat := marks.count .polled

def Mark.seconds : Mark → ℚ
  | .retried seconds => seconds
  | _ => 0

def retrySeconds (marks : List Mark) : ℚ := (marks.map Mark.seconds).sum

/-- The clock of the first lookup that saw the live lease, and what came after it. -/
def firstLive : List Mark → Option (ℚ × List Mark)
  | [] => none
  | .looked true clock :: after => some (clock,after)
  | .looked false _ :: rest => firstLive rest
  | .polled :: rest => firstLive rest
  | .retried _ :: rest => firstLive rest

/-- No later than the timeout, one poll interval and the sleeps of the retry after the
    first lookup that saw the live lease. -/
def InTime (c : Config) (u : Watch) : Prop :=
  ∀ clock after, firstLive u.marks = some (clock,after) →
    u.registry.mono ≤ clock + c.leaseWaitTimeout + leaseWaitPollInterval + retrySeconds after

inductive Kept (start : ℚ) : List Mark → ℚ → Prop where
  | start : Kept start [] start
  | looked {marks : List Mark} {now : ℚ} (live : Bool) (kept : Kept start marks now) :
      Kept start (marks ++ [.looked live now]) now
  | polled {marks : List Mark} {now : ℚ} (kept : Kept start marks now)
      (seen : (firstLive marks).isSome) : Kept start (marks ++ [.polled]) (now + 1 / 2)
  | retried {marks : List Mark} {now : ℚ} (seconds : ℚ) (kept : Kept start marks now) :
      Kept start (marks ++ [.retried seconds]) (now + seconds)

section
variable {start now clock : ℚ} {marks after : List Mark} {c : Config} {u : Watch}

theorem firstLive_append (marks : List Mark) (m : Mark) : firstLive (marks ++ [m]) =
    match firstLive marks with
    | some (clock,after) => some (clock,after ++ [m])
    | none => firstLive [m] := by
  induction marks with
  | nil => rfl
  | cons first marks ih =>
    cases first with
    | looked live clock =>
      cases live with
      | true => rfl
      | false => exact ih
    | polled => exact ih
    | retried seconds => exact ih

theorem polls_append (marks : List Mark) (m : Mark) :
    polls (marks ++ [m]) = polls marks + polls [m] := List.count_append ..

theorem retrySeconds_append (marks : List Mark) (m : Mark) :
    retrySeconds (marks ++ [m]) = retrySeconds marks + m.seconds := by
  simp [retrySeconds]

theorem kept_clock (kept : Kept start marks now) :
    match firstLive marks with
    | some (clock,after) => now = clock + polls marks * (1 / 2) + retrySeconds after
    | none => polls marks = 0 := by
  induction kept with
  | start => rfl
  | @looked marks now live kept ih =>
    rw [firstLive_append, polls_append]
    have none_ : polls [.looked live now] = 0 := rfl
    cases seen : firstLive marks with
    | some first =>
      rw [seen] at ih
      simp only [retrySeconds_append, none_, Mark.seconds, add_zero]
      exact ih
    | none =>
      rw [seen] at ih
      cases live with
      | true => simp [firstLive, ih, none_, retrySeconds]
      | false => simp [firstLive, ih, none_]
  | @polled marks now kept some_ ih =>
    rw [firstLive_append, polls_append]
    obtain ⟨first,seen⟩ := Option.isSome_iff_exists.mp some_
    have one : polls [.polled] = 1 := rfl
    rw [seen] at ih
    simp only [seen, retrySeconds_append, one, Mark.seconds, add_zero]
    push_cast
    linarith
  | @retried marks now seconds kept ih =>
    rw [firstLive_append, polls_append]
    have none_ : polls [.retried seconds] = 0 := rfl
    cases seen : firstLive marks with
    | some first =>
      rw [seen] at ih
      simp only [retrySeconds_append, none_, Mark.seconds, add_zero]
      linarith
    | none =>
      rw [seen] at ih
      simpa [firstLive, none_] using ih

theorem inTime_iff (kept : Kept start u.marks u.registry.mono) :
    InTime c u ↔ (polls u.marks : ℚ) ≤ 2 * c.leaseWaitTimeout + 1 := by
  have clock := kept_clock kept
  cases seen : firstLive u.marks with
  | none =>
    rw [seen] at clock
    have room := c.timeout_nonneg
    constructor
    · intro _
      rw [clock]
      push_cast
      linarith
    · intro _ clock after first
      rw [seen] at first
      contradiction
  | some first =>
    obtain ⟨at_,after⟩ := first
    simp only [seen] at clock
    constructor
    · intro h
      have bound := h at_ after seen
      unfold leaseWaitPollInterval at bound
      linarith
    · intro few at_' after' first
      rw [seen] at first
      cases first
      unfold leaseWaitPollInterval
      linarith

end

/-- What a pattern of failures leaves of one attempt of the setup: the polls it makes, the
    number of the catalog call after it, and whether a failed call cut it off. -/
structure Attempt where
  polls : Nat
  next : Nat
  cut : Bool

section
variable (c : Config) (moments : Nat → CdcSetup.Moment)

def fails (k : Nat) : Bool := (moments k).fault.isSome

/-- A failed create that is not taken for the answer that the consumer exists. -/
def refuses (k : Nat) : Bool :=
  (moments k).fault.any fun e => !(isQueryError e && isDuplicateConsumerError e c.name)

/-- The wait loop with `n` polls to its deadline, when its next lookup is call `k`. -/
def loopFrom : Nat → Nat → Attempt
  | 0, k => ⟨0,k + 1,fails moments k⟩
  | n + 1, k =>
    if fails moments k then ⟨0,k + 1,true⟩
    else
      let rest := loopFrom n (k + 1)
      { rest with polls := rest.polls + 1 }

def attemptFrom (k : Nat) : Attempt :=
  if refuses c moments k then ⟨0,k + 1,true⟩
  else if fails moments (k + 1) then ⟨0,k + 2,true⟩
  else loopFrom moments ⌈2 * c.leaseWaitTimeout⌉₊ (k + 2)

/-- The polls of this attempt and of those after it, while attempts are left and the error
    is retried: it came from a failed call, or its text reads as transient. -/
def pollsFrom (again : Bool) : Nat → Nat → Nat
  | 0, k => (attemptFrom c moments k).polls
  | left + 1, k =>
    let a := attemptFrom c moments k
    a.polls + if a.cut || again then pollsFrom again left a.next else 0

end

section
variable {p : Platform} {c : Config} {moments : Nat → CdcSetup.Moment} {start : ℚ} {k n : Nat}
  {u : Watch}

structure At (c : Config) (moments : Nat → CdcSetup.Moment) (start : ℚ) (k n : Nat) (u : Watch) :
    Prop where
  held : HeldThroughout c u.registry
  moments : u.registry.moments = moments
  calls : u.registry.calls.length = k
  kept : Kept start u.marks u.registry.mono
  polls : polls u.marks = n

/-- Nothing but its sleeps takes the client's time, and what fails may be tried again. -/
structure Passing (moments : Nat → CdcSetup.Moment) : Prop where
  still : ∀ k, (moments k).elapsed = 0
  transient : ∀ k e, (moments k).fault = some e → isTransientError e = true

theorem at_moment (h : At c moments start k n u) : u.registry.moment = moments k := by
  rw [Registry.moment, h.moments, h.calls]

theorem at_arrive (passing : Passing moments) (h : At c moments start k n u) (call : CatalogCall) :
    At c moments start (k + 1) n { u with registry := u.registry.arrive call } ∧
      (u.registry.arrive call).mono = u.registry.mono := by
  have mono : (u.registry.arrive call).mono = u.registry.mono := by
    simp [Registry.arrive, at_moment h, passing.still]
  refine ⟨⟨held_arrive h.held call,h.moments,?_,?_,h.polls⟩,mono⟩
  · rw [arrive_calls, List.length_append, h.calls]
    rfl
  · rw [mono]
    exact h.kept

theorem at_note {m : Mark} (h : At c moments start k n u) (silent : m ≠ .polled)
    (kept : Kept start (u.marks ++ [m]) u.registry.mono) :
    At c moments start k n { u with marks := u.marks ++ [m] } := by
  refine ⟨h.held,h.moments,h.calls,kept,?_⟩
  have none_ : polls [m] = 0 := List.count_eq_zero.mpr (by simpa using silent.symm)
  rw [polls_append, none_]
  exact h.polls

theorem at_polled (h : At c moments start k n u) (seen : (firstLive u.marks).isSome) :
    At c moments start k (n + 1) u.polled ∧ u.polled.registry.mono = u.registry.mono + 1 / 2 := by
  have mono : u.polled.registry.mono = u.registry.mono + 1 / 2 := by
    norm_num [Watch.polled, leaseWaitPollInterval]
  refine ⟨⟨h.held,h.moments,h.calls,?_,?_⟩,mono⟩
  · rw [mono]
    exact .polled h.kept seen
  · change polls (u.marks ++ [.polled]) = n + 1
    rw [polls_append, h.polls]
    rfl

theorem ends_look_watched (passing : Passing moments) (h : At c moments start k n u) :
    Ends (lookupConsumer c) u
      (fun found v => fails moments k = false ∧ At c moments start (k + 1) n v ∧
        v.registry.mono = u.registry.mono ∧ (firstLive v.marks).isSome ∧
        ∃ entry, leased found v.registry.wall = some entry)
      (fun e v => fails moments k = true ∧ isTransientError e = true ∧
        At c moments start (k + 1) n v) := by
  obtain ⟨next,mono⟩ := at_arrive passing h .list
  obtain ⟨entry,held⟩ := held_now h.held .list
  simp only [lookupConsumer, onRegistry, note, ends_bind, ends_within, ends_get, ends_modify,
    ends_pure]
  apply ends_lookupConsumer
  · intro e fault
    rw [at_moment h] at fault
    exact ⟨by rw [fails, fault]; rfl,passing.transient k e fault,next⟩
  · intro clean
    rw [at_moment h] at clean
    have seen : (firstLive (u.marks ++ [.looked true (u.registry.arrive .list).mono])).isSome := by
      rw [firstLive_append]
      split <;> rfl
    rw [held]
    refine ⟨by rw [fails, clean]; rfl,?_,mono,seen,entry,rfl⟩
    exact at_note next (by simp) (.looked true next.kept)

theorem waitedError_transient (entry : ConsumerListEntry) :
    isTransientError (waitedError p c entry) = transientMessage (pyRepr p c.name) := by
  cases printed : transientMessage (pyRepr p c.name) with
  | false => exact waitedError_not_transient printed entry
  | true =>
    have inside : lower (pyRepr p c.name) <:+: lower ("timed out after " ++
        formatTenths c.leaseWaitTimeout ++ "s waiting for consumer " ++ pyRepr p c.name ++
        " lease (held by " ++ ownerText entry ++ ")") := by
      refine ⟨lower ("timed out after " ++ formatTenths c.leaseWaitTimeout ++
        "s waiting for consumer "),lower (" lease (held by " ++ ownerText entry ++ ")"),?_⟩
      simp only [lower_append, List.append_assoc]
    rcases transientMessage_iff.mp printed with locked | joined
    · exact transientMessage_iff.mpr (Or.inl (locked.trans inside))
    · exact transientMessage_iff.mpr (Or.inr (joined.trans inside))

theorem ends_await_watched (passing : Passing moments) {base : ℚ} {j m : Nat}
    (left : j + m = ⌈2 * c.leaseWaitTimeout⌉₊) (h : At c moments start k n u)
    (mono : u.registry.mono = base + j * (1 / 2)) :
    Ends (awaitLease p c (base + c.leaseWaitTimeout)) u (fun _ _ => False)
      (fun e v => At c moments start (loopFrom moments m k).next (n + (loopFrom moments m k).polls) v ∧
        isTransientError e =
          ((loopFrom moments m k).cut || transientMessage (pyRepr p c.name))) := by
  induction m generalizing u k n j with
  | zero =>
    rw [ends_awaitLease_watched]
    apply ends_mono (ends_look_watched passing h)
    · rintro found v ⟨clean,next,same,seen,entry,held⟩
      have due : base + c.leaseWaitTimeout ≤ v.registry.mono := by
        have reached : 2 * c.leaseWaitTimeout ≤ (j : ℚ) := Nat.ceil_le.mp left.ge
        rw [same, mono]
        linarith
      rw [held]
      dsimp only
      rw [if_pos due]
      refine ⟨next,?_⟩
      rw [waitedError_transient, loopFrom, clean, Bool.false_or]
    · rintro e v ⟨failed,transient,next⟩
      refine ⟨next,?_⟩
      rw [transient, loopFrom, failed, Bool.true_or]
  | succ m ih =>
    rw [ends_awaitLease_watched]
    apply ends_mono (ends_look_watched passing h)
    · rintro found v ⟨clean,next,same,seen,entry,held⟩
      have early : ¬ base + c.leaseWaitTimeout ≤ v.registry.mono := by
        have short : (j : ℚ) < 2 * c.leaseWaitTimeout := Nat.lt_ceil.mp (by omega)
        rw [same, mono]
        linarith
      obtain ⟨polled,later⟩ := at_polled next seen
      have clock : v.polled.registry.mono = base + ((j + 1 : Nat) : ℚ) * (1 / 2) := by
        rw [later, same, mono]
        push_cast
        ring
      have rest := ih (by omega) polled clock
      rw [held]
      dsimp only
      rw [if_neg early]
      simp only [loopFrom, clean, Bool.false_eq_true, if_false]
      apply ends_mono rest (fun _ _ no => no)
      rintro e w ⟨there,transient⟩
      refine ⟨?_,transient⟩
      convert there using 1
      omega
    · rintro e v ⟨failed,transient,next⟩
      simp only [loopFrom, failed, if_true]
      exact ⟨next,by rw [transient, Bool.true_or]⟩

theorem ends_create_watched (passing : Passing moments) (h : At c moments start k n u) :
    Ends (onRegistry (tryCreate p c)) u
      (fun created v => created = false ∧ refuses c moments k = false ∧
        At c moments start (k + 1) n v)
      (fun e v => refuses c moments k = true ∧ isTransientError e = true ∧
        At c moments start (k + 1) n v) := by
  obtain ⟨next,_⟩ := at_arrive passing h (.create c.name)
  obtain ⟨entry,leased⟩ := held_now h.held (.create c.name)
  have present := has_of_lookup (leased_some leased).1
  unfold onRegistry tryCreate cdcConsumerCreate
  rw [ends_within, ends_tryExcept, ends_bind]
  apply ends_callCatalog
  · intro e fault
    rw [at_moment h] at fault
    have transient := passing.transient k e fault
    have refused : refuses c moments k =
        !(isQueryError e && isDuplicateConsumerError e c.name) := by rw [refuses, fault]; rfl
    cases query : isQueryError e with
    | false => exact ⟨by rw [refused, query]; rfl,transient,next⟩
    | true =>
      cases duplicate : isDuplicateConsumerError e c.name with
      | false => exact ⟨by rw [refused, query, duplicate]; rfl,transient,next⟩
      | true => exact ⟨rfl,by rw [refused, query, duplicate]; rfl,next⟩
  · intro e clean refused
    rw [at_moment h] at clean
    rw [if_pos present] at refused
    cases refused
    simp only [(p.duplicate c.name).1, (p.duplicate c.name).2, if_true]
    exact ⟨rfl,by rw [refuses, clean]; rfl,next⟩
  · intro a entries _ done
    rw [if_pos present] at done
    cases done

theorem ends_attempt_watched (passing : Passing moments) (use : c.onExists = .use)
    (wait : c.leasePolicy = .wait) (h : At c moments start k n u) :
    Ends (setupAndApplyLeasePolicy p c) u (fun _ _ => False)
      (fun e v => At c moments start (attemptFrom c moments k).next
          (n + (attemptFrom c moments k).polls) v ∧
        isTransientError e =
          ((attemptFrom c moments k).cut || transientMessage (pyRepr p c.name))) := by
  unfold setupAndApplyLeasePolicy setupConsumer
  rw [use]
  simp only [reduceCtorEq, if_false, ends_bind]
  have created := ends_create_watched (p := p) passing h
  unfold onRegistry at created ⊢
  rw [ends_within] at created ⊢
  rw [ends_bind]
  apply ends_mono created
  · rintro _ s ⟨rfl,accepted,next⟩
    simp only [Bool.false_eq_true, if_false, ends_pure]
    unfold applyLeasePolicy
    rw [ends_bind]
    apply ends_mono (ends_look_watched passing next)
    · rintro found v ⟨clean,looked,_,seen,entry,held⟩
      have attempt : attemptFrom c moments k =
          loopFrom moments ⌈2 * c.leaseWaitTimeout⌉₊ (k + 2) := by
        simp [attemptFrom, accepted, clean]
      rw [ends_bind, ends_get, held]
      simp only [wait, ends_bind, ends_get]
      rw [attempt]
      exact ends_await_watched passing (j := 0) (by omega) looked (by simp)
    · rintro e v ⟨failed,transient,looked⟩
      have attempt : attemptFrom c moments k = ⟨0,k + 2,true⟩ := by
        simp [attemptFrom, accepted, failed]
      rw [attempt]
      exact ⟨looked,by rw [transient, Bool.true_or]⟩
  · rintro e s ⟨refused,transient,next⟩
    have attempt : attemptFrom c moments k = ⟨0,k + 1,true⟩ := by
      simp [attemptFrom, refused]
    rw [attempt]
    exact ⟨next,by rw [transient, Bool.true_or]⟩

theorem ends_retrySleep (h : At c moments start k n u) {seconds : ℚ} (forward : 0 ≤ seconds) :
    Ends (retrySleep seconds) u (fun _ v => At c moments start k n v) (fun _ _ => False) := by
  simp only [retrySleep, onRegistry, note, sleep, ends_bind, ends_within, ends_modify,
    max_eq_right forward]
  refine ⟨h.held,h.moments,h.calls,.retried seconds h.kept,?_⟩
  have none_ : polls [.retried seconds] = 0 := rfl
  rw [polls_append, none_]
  exact h.polls

theorem ends_attempts_watched (passing : Passing moments) (use : c.onExists = .use)
    (wait : c.leasePolicy = .wait) (left : Nat) (h : At c moments start k n u) :
    Ends (attempts (retrySleep (1 / 5)) (setupAndApplyLeasePolicy p c) left) u
      (fun _ _ => False)
      (fun _ v => ∃ k', At c moments start k'
        (n + pollsFrom c moments (transientMessage (pyRepr p c.name)) left k) v) := by
  induction left generalizing u k n with
  | zero =>
    apply ends_mono (ends_attempt_watched passing use wait h) (fun _ _ no => no)
    rintro e v ⟨there,_⟩
    exact ⟨_,there⟩
  | succ left ih =>
    rw [attempts, ends_tryExcept]
    apply ends_mono (ends_attempt_watched passing use wait h) (fun _ _ no => no)
    rintro e v ⟨there,transient⟩
    have same : isTransient e = isTransientError e := rfl
    rw [same, transient, pollsFrom]
    split
    · rw [ends_bind]
      apply ends_mono (ends_retrySleep there (by norm_num)) _ (fun _ _ no => no.elim)
      intro _ w rested
      rw [← Nat.add_assoc]
      exact ih rested
    · exact ⟨_,there⟩

/-- The failures leave the attempts so few polls that they end in time. Only
    `on_exists='use'` looks at a lease that stays alive. -/
def Affords (p : Platform) (c : Config) (s : Registry) : Prop :=
  c.onExists = .use →
    (pollsFrom c s.moments (transientMessage (pyRepr p c.name)) 4 s.calls.length : ℚ) ≤
      2 * c.leaseWaitTimeout + 1

theorem inTime_of_unlooked (unlooked : firstLive u.marks = none) : InTime c u := by
  intro clock after first
  rw [unlooked] at first
  contradiction

/-- `on_exists='error'` refuses before it looks, `on_exists='replace'` never looks. -/
structure Unlooked (c : Config) (u : Watch) : Prop where
  marks : firstLive u.marks = none
  held : c.onExists = .error → HeldThroughout c u.registry

theorem ends_attempt_unlooked (other : c.onExists ≠ .use) (h : Unlooked c u) :
    Ends (setupAndApplyLeasePolicy p c) u (fun _ v => firstLive v.marks = none)
      (fun _ v => Unlooked c v) := by
  unfold setupAndApplyLeasePolicy onRegistry
  rw [ends_bind, ends_within]
  cases policy : c.onExists with
  | use => exact absurd policy other
  | replace =>
    apply ends_mono (ends_total _ _)
    · intro _ s _
      exact h.marks
    · intro _ s _
      exact ⟨h.marks,fun error => by rw [policy] at error; contradiction⟩
  | error =>
    unfold setupConsumer
    rw [policy]
    simp only [ends_bind]
    apply ends_mono (ends_tryCreate_held (respected_start (h.held policy)))
    · rintro _ s ⟨rfl,kept⟩
      simp only [Bool.false_eq_true, if_false, if_true, ends_throw]
      exact ⟨h.marks,fun _ => kept.held⟩
    · rintro e s ⟨_,kept⟩
      exact ⟨h.marks,fun _ => kept.held⟩

theorem ends_retrySleep_unlooked (seconds : ℚ) (h : Unlooked c u) :
    Ends (retrySleep seconds) u (fun _ v => Unlooked c v) (fun _ _ => False) := by
  simp only [retrySleep, onRegistry, note, sleep, ends_bind, ends_within, ends_modify]
  refine ⟨?_,fun error => h.held error⟩
  rw [firstLive_append, h.marks]
  rfl

theorem ends_setup_watched {s : Registry} (passing : Passing s.moments) (wait : c.leasePolicy = .wait)
    (held : HeldThroughout c s) :
    Ends (RetryPolicy.default.run retrySleep (setupAndApplyLeasePolicy p c)) ⟨s,[]⟩
      (fun _ v => firstLive v.marks = none ∧ Affords p c s)
      (fun _ v => InTime c v ↔ Affords p c s) := by
  by_cases use : c.onExists = .use
  · have begins : At c s.moments s.mono s.calls.length 0 ⟨s,[]⟩ := ⟨held,rfl,rfl,.start,rfl⟩
    have budget : RetryPolicy.default.run retrySleep (setupAndApplyLeasePolicy p c) =
        attempts (retrySleep (1 / 5)) (setupAndApplyLeasePolicy p c) 4 := rfl
    rw [budget]
    apply ends_mono (ends_attempts_watched passing use wait 4 begins) (fun _ _ no => no.elim)
    rintro e v ⟨k,there⟩
    rw [inTime_iff there.kept, there.polls, Nat.zero_add]
    exact ⟨fun few _ => few,fun affords => affords use⟩
  · have affords : Affords p c s := fun same => absurd same use
    have begins : Unlooked c ⟨s,[]⟩ := ⟨rfl,fun _ => held⟩
    have ended := ends_policy .default (fun v h => ends_attempt_unlooked (p := p) use h)
      (fun d v h => ends_retrySleep_unlooked d h) _ begins
    apply ends_mono ended
    · exact fun _ v unlooked => ⟨unlooked,affords⟩
    · exact fun _ v h => iff_of_true (inTime_of_unlooked h.marks) affords

end

section
variable {κ : Type} {k : Consumer κ} {r : Replies κ Registry} {u : Lifecycle κ Registry}
  {p : Platform} {c : Config}

def withWatch (p : Platform) (c : Config) (r : Replies κ Registry) : Replies κ Watch where
  derive := r.derive
  prewarm := r.prewarm
  setup := setupAndApplyLeasePolicy p c
  sleep := retrySleep
  onClosed := r.onClosed
  openSink := r.openSink
  rollbackSink := r.rollbackSink
  closeSink := r.closeSink
  closeConnection := r.closeConnection

def watched (u : Lifecycle κ Registry) : Lifecycle κ Watch where
  client := u.client
  connection := u.connection
  derivedConnection := u.derivedConnection
  opened := u.opened
  derivedCount := u.derivedCount
  closed := u.closed
  sinkLog := u.sinkLog
  db := ⟨u.db,[]⟩

theorem ends_guarded_db {δ : Type} {k : Consumer κ} {r : Replies κ δ} {u : Lifecycle κ δ}
    {done failed : δ → Prop} {connection : Connection} (live : connection ∉ u.closed)
    (setup : Ends (retried k r) u.db (fun _ => done) (fun _ => failed))
    (weaker : ∀ db, done db → failed db) :
    Ends (guarded k r connection) u (fun _ t => done t.db) (fun _ t => failed t.db) := by
  have cleaned : ∀ e (t : Lifecycle κ δ), failed t.db →
      Ends (do
          closeSinksQuietly k r
          closeDerivedConnection r
          throw e : Owner κ δ Unit) t (fun _ t => done t.db) (fun _ t => failed t.db) := by
    intro e t bad
    apply ends_mono (ends_cleanup e) (fun _ _ no => no.elim)
    rintro _ v ⟨same,_⟩
    rw [same]
    exact bad
  unfold guarded attempt setupOn openSinks
  rw [ends_tryExcept, ends_bind, ends_bind, ends_get, ends_within, if_neg live]
  apply ends_mono setup
  · intro _ db good
    rw [ends_bind]
    apply ends_openEach
    · exact fun _ => good
    · exact fun e events _ => cleaned e _ (weaker db good)
  · exact fun e db bad => cleaned e _ bad

theorem ends_enter_watched (calm : Calm k r u) (default : k.retryPolicy = .default)
    {done failed : Watch → Prop}
    (setup : Ends (RetryPolicy.default.run retrySleep (setupAndApplyLeasePolicy p c)) ⟨u.db,[]⟩
      (fun _ => done) (fun _ => failed)) (weaker : ∀ v, done v → failed v) :
    Ends (enter k (withWatch p c r)) (watched u) (fun _ t => done t.db)
      (fun _ t => failed t.db) := by
  have retries : retried k (withWatch p c r) =
      RetryPolicy.default.run retrySleep (setupAndApplyLeasePolicy p c) := by
    rw [retried, default]
    rfl
  cases built : u.client with
  | none =>
    have unbuilt : (watched u).client = none := built
    have fresh := calm.new built
    apply ends_enter_first unbuilt
    · intro e refused _
      have none_refused : r.derive = some e := refused
      rw [calm.derive] at none_refused
      cases none_refused
    · intro e cold _
      have none_cold : r.prewarm = some e := cold
      rw [calm.prewarm] at none_cold
      cases none_cold
    · intro _ _
      apply ends_guarded_db _ _ weaker
      · unfold drawn at fresh ⊢
        split at fresh
        · rename_i given
          rw [if_pos given]
          exact fresh
        · rename_i derives
          rw [if_neg derives]
          exact fresh
      · rw [retries]
        unfold drawn
        split <;> exact setup
  | some connection =>
    have rebuilt : (watched u).client = some connection := built
    apply ends_enter_again rebuilt
    apply ends_guarded_db _ _ weaker
    · exact calm.kept connection built
    · rw [retries]
      exact setup

/-- However `open()` ends, it is in time if and only if the failures leave few enough polls. -/
theorem ends_open_watched (wait : c.leasePolicy = .wait) (default : k.retryPolicy = .default)
    (calm : Calm k r u) (held : HeldThroughout c u.db) (passing : Passing u.db.moments) :
    Ends (enter k (withWatch p c r)) (watched u)
      (fun _ t => firstLive t.db.marks = none ↔ Affords p c u.db)
      (fun _ t => InTime c t.db ↔ Affords p c u.db) := by
  have ended := ends_enter_watched calm default (ends_setup_watched (p := p) passing wait held)
    fun v ⟨unlooked,affords⟩ => iff_of_true (inTime_of_unlooked unlooked) affords
  exact ends_mono ended (fun _ t good => iff_of_true good.1 good.2) fun _ _ same => same

/-- While the lease stays alive and nothing but catalog calls fails, `open()` raises in time if
    and only if the failures leave its attempts few enough polls. -/
theorem wait_deadline_iff (p : Platform) (c : Config) (wait : c.leasePolicy = .wait)
    (k : Consumer κ) (default : k.retryPolicy = .default) (r : Replies κ Registry)
    (u : Lifecycle κ Registry) (calm : Calm k r u) (held : HeldThroughout c u.db)
    (passing : Passing u.db.moments) :
    Ends (enter k (withWatch p c r)) (watched u) (fun _ t => firstLive t.db.marks = none)
      (fun _ t => InTime c t.db) ↔ Affords p c u.db :=
  ends_iff (ends_open_watched wait default calm held passing)

end

def lockedError : Exc := .raised .otherException "database is locked"

/-- The lease of `orders` is fresh at every look; the lookup after 29.5 s of polls fails. -/
def lateFault : Registry where
  entries := [ordersLease]
  moments k := { fault := if k = 61 then some lockedError else none }

theorem lateFault_held (c : Config) (orders : c.name = "orders") : HeldThroughout c lateFault := by
  intro n
  have still : ∀ n, drift lateFault.moments 0 [ordersLease] n = [ordersLease] := by
    intro n
    induction n with
    | zero => rfl
    | succ n ih =>
      rw [drift, ih]
      rfl
  refine ⟨ordersLease,?_⟩
  change leased (lookup c.name (drift lateFault.moments 0 [ordersLease] (n + 1))) 0 = _
  rw [still, orders]
  decide +kernel

theorem lateFault_passing : Passing lateFault.moments where
  still _ := rfl
  transient k e fault := by
    have same : (if k = 61 then some lockedError else none) = some e := fault
    split at same
    · cases same
      decide
    · contradiction

theorem opener_calm (s : Registry) : Calm opener {} (opener.fresh s) where
  derive := rfl
  prewarm := rfl
  sweep := by simp [SweepInterrupted, opener]
  closing := rfl
  kept := by simp [Consumer.fresh, opener]
  new _ := by simp [Consumer.fresh]

theorem lateFault_polls : pollsFrom (ordersConfig .use) lateFault.moments
    (transientMessage (pyRepr Platform.plain "orders")) 4 0 = 119 := by decide +kernel

theorem lateFault_not_affords : ¬ Affords Platform.plain (ordersConfig .use) lateFault := by
  intro affords
  have few := affords rfl
  change (pollsFrom (ordersConfig .use) lateFault.moments
    (transientMessage (pyRepr Platform.plain "orders")) 4 0 : ℚ) ≤ 2 * 30 + 1 at few
  rw [lateFault_polls] at few
  norm_num at few

/-- 59.5 s of polls and one retry sleep pass before `open()` gives up a wait of 30 s. -/
theorem late_fault_overdue : ¬ Ends (enter opener (withWatch Platform.plain (ordersConfig .use) {}))
    (watched (opener.fresh lateFault)) (fun _ t => firstLive t.db.marks = none)
    (fun _ t => InTime (ordersConfig .use) t.db) := by
  intro claimed
  have ended := ends_open_watched (p := Platform.plain) (c := ordersConfig .use) rfl rfl
    (opener_calm lateFault) (lateFault_held _ rfl) lateFault_passing
  exact lateFault_not_affords ((ends_iff ended).mp claimed)

theorem heldRun_in_time : Ends (enter opener (withWatch Platform.plain (ordersConfig .use) {}))
    (watched (opener.fresh heldRun)) (fun _ t => firstLive t.db.marks = none)
    (fun _ t => InTime (ordersConfig .use) t.db) := by
  have few : pollsFrom (ordersConfig .use) heldRun.moments
      (transientMessage (pyRepr Platform.plain "orders")) 4 0 = 60 := by decide +kernel
  apply (wait_deadline_iff Platform.plain (ordersConfig .use) rfl opener rfl {}
    (opener.fresh heldRun) (opener_calm heldRun) (heldRun_held .use)
    ⟨fun _ => rfl,fun _ _ fault => by cases fault⟩).mpr
  intro _
  change (pollsFrom (ordersConfig .use) heldRun.moments
    (transientMessage (pyRepr Platform.plain "orders")) 4 0 : ℚ) ≤ _
  rw [few]
  norm_num [ordersConfig]

end CdcWaitDeadline
