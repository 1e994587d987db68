import DucklakeCdc.ConsumerSetup
import Mathlib.Algebra.BigOperators.Intervals
import Mathlib.Algebra.Order.BigOperators.Group.Finset

/-!
Retrying the whole setup after a transient failure. An attempt is named by the number of
its first call: from there on the moments its calls meet settle whether a failure hits it,
and whether a lease stands in its way. The retried setup comes to what the first attempt
decides that no failure hits, except where a broken attempt created a consumer that must
not exist yet.
-/
namespace CdcSetupRetries
open Programs CdcRetry CdcSetup

section
variable {name : String} {entries : Catalog}

theorem has_append_created : Catalog.has (entries ++ [createdEntry name]) name = true := by
  simp [Catalog.has, createdEntry]

theorem lookup_append_created (free : entries.has name = false) :
    lookup name (entries ++ [createdEntry name]) = some (createdEntry name) := by
  have missing : entries.find? (fun entry => entry.consumerName == name) = none :=
    lookup_of_free free
  simp [lookup, List.find?_append, missing, createdEntry]

theorem lookup_mem {entry : ConsumerListEntry} (found : lookup name entries = some entry) :
    entry ∈ entries ∧ entry.consumerName = name := by
  unfold lookup at found
  exact ⟨List.mem_of_find?_eq_some found,by simpa using List.find?_some found⟩

def without (name : String) (entries : Catalog) : Catalog :=
  entries.filter fun entry => entry.consumerName ≠ name

theorem without_release :
    without name (entries.map (releaseEntry name)) = without name entries := by
  unfold without
  induction entries with
  | nil => rfl
  | cons entry rest ih =>
    by_cases same : entry.consumerName = name
    · simpa [releaseEntry, same] using ih
    · simpa [releaseEntry, same] using ih

theorem without_free (free : entries.has name = false) : without name entries = entries := by
  simpa [without, Catalog.has] using free

theorem free_without : (without name entries).has name = false := by
  simp [without, Catalog.has]

theorem unowned_of_released {entry : ConsumerListEntry} (named : entry.consumerName = name)
    (member : entry ∈ entries.map (releaseEntry name)) : entry.ownerToken = none := by
  obtain ⟨old,_,new⟩ := List.mem_map.mp member
  have same : old.consumerName = name := by
    rw [← new, releaseEntry] at named
    split at named <;> exact named
  rw [← new, releaseEntry, if_pos same]

def settled (name : String) (entries : Catalog) : Catalog :=
  if entries.has name then entries else entries ++ [createdEntry name]

theorem settled_taken (taken : entries.has name = true) : settled name entries = entries :=
  if_pos taken

theorem settled_free (free : entries.has name = false) :
    settled name entries = entries ++ [createdEntry name] := by
  simp [settled, free]

theorem settled_has : (settled name entries).has name = true := by
  unfold settled
  split
  · assumption
  · exact has_append_created

theorem settled_settled : settled name (settled name entries) = settled name entries :=
  settled_taken settled_has

theorem lookup_settled (name : String) (entries : Catalog) :
    ∃ entry, lookup name (settled name entries) = some entry := by
  have taken : (settled name entries).has name = true := settled_has
  cases found : lookup name (settled name entries) with
  | some entry => exact ⟨entry,rfl⟩
  | none =>
    rw [Catalog.has, List.any_eq_true] at taken
    obtain ⟨entry,member,named⟩ := taken
    exact absurd named (List.find?_eq_none.mp found entry member)

end

section
variable (c : Config) (moments : Nat → Moment) (entry : ConsumerListEntry)

def Clean (i : Nat) : Prop := (moments i).fault = none

def AliveAt (i : Nat) : Prop := leaseIsAlive entry (moments i).wall = true

/-- How long a wait loop whose first look is call `first` has waited at call `last`. -/
def waited (first last : Nat) : ℚ :=
  ∑ i ∈ Finset.Ico first last, (max 0 (moments i).elapsed + leaseWaitPollInterval) +
    max 0 (moments last).elapsed

/-- The lease stands in the way of an attempt whose first call is `i`: it is alive when it
    is looked at and, under the wait policy, until the wait is over. -/
def Held (i : Nat) : Prop :=
  AliveAt moments entry (i + 1) ∧ (c.leasePolicy = .wait → ∃ last, i + 2 ≤ last ∧
    (∀ j, i + 2 ≤ j → j ≤ last → AliveAt moments entry j) ∧
    c.leaseWaitTimeout ≤ waited moments (i + 2) last)

/-- No failure hits an attempt whose first call is `i`. -/
def Unhit (i : Nat) : Prop :=
  Clean moments i ∧ Clean moments (i + 1) ∧ (AliveAt moments entry (i + 1) →
    match c.leasePolicy with
    | .error => True
    | .takeover => Clean moments (i + 2)
    | .wait => ∃ last, i + 2 ≤ last ∧ (∀ j, i + 2 ≤ j → j ≤ last → Clean moments j) ∧
        (¬ AliveAt moments entry last ∨ c.leaseWaitTimeout ≤ waited moments (i + 2) last))

/-- From call `first` on, `i` is where the first attempt begins that no failure hits. -/
structure FirstUnhit (first i : Nat) : Prop where
  le : first ≤ i
  unhit : Unhit c moments entry i
  hit : ∀ j, first ≤ j → j < i → ¬ Unhit c moments entry j

structure Pending (i k : Nat) : Prop where
  le : i ≤ k
  clean : ∀ j, i ≤ j → j < k → Clean moments j
  looked : i + 2 ≤ k → AliveAt moments entry (i + 1)
  error : c.leasePolicy = .error → k ≤ i + 1
  takeover : c.leasePolicy = .takeover → k ≤ i + 2
  wait : ∀ j, i + 2 ≤ j → j < k →
    AliveAt moments entry j ∧ waited moments (i + 2) j < c.leaseWaitTimeout

variable {c moments entry} {first i k : Nat}

theorem owned_of_alive (alive : AliveAt moments entry i) : entry.ownerToken ≠ none := by
  intro unowned
  simp [AliveAt, leaseIsAlive, unowned] at alive

theorem waited_later {j last : Nat} (later : first ≤ j) :
    waited moments j last ≤ waited moments first last := by
  have fewer : ∑ i ∈ Finset.Ico j last, (max 0 (moments i).elapsed + leaseWaitPollInterval) ≤
      ∑ i ∈ Finset.Ico first last, (max 0 (moments i).elapsed + leaseWaitPollInterval) := by
    apply Finset.sum_le_sum_of_subset_of_nonneg
    · exact Finset.Ico_subset_Ico_left later
    · intro j _ _
      have poll : (0 : ℚ) ≤ leaseWaitPollInterval := by norm_num [leaseWaitPollInterval]
      exact add_nonneg (le_max_left _ _) poll
  unfold waited
  linarith

theorem firstUnhit_unique {k : Nat} (h : FirstUnhit c moments entry first i)
    (h' : FirstUnhit c moments entry first k) : i = k := by
  rcases Nat.lt_trichotomy i k with before | same | after
  · exact absurd h.unhit (h'.hit i h.le before)
  · exact same
  · exact absurd h'.unhit (h.hit k h'.le after)

theorem firstUnhit_start (unhit : Unhit c moments entry first) :
    FirstUnhit c moments entry first first :=
  ⟨le_refl _,unhit,fun _ above below => absurd below (not_lt.mpr above)⟩

theorem pending_start : Pending c moments entry i i := by
  constructor <;> intros <;> omega

theorem pending_created (clean : Clean moments i) : Pending c moments entry i (i + 1) := by
  constructor
  · omega
  · intro j above below
    obtain rfl : j = i := by omega
    exact clean
  all_goals intros; omega

/-- After an attempt that a failure has broken, no attempt that began among its calls
    could have gone through. -/
theorem hit_of_pending (pending : Pending c moments entry i k) (broken : ¬ Clean moments k) :
    ∀ j, i ≤ j → j ≤ k → ¬ Unhit c moments entry j := by
  intro j above below unhit
  obtain ⟨first,second,rest⟩ := unhit
  have before : j < k := by
    by_contra late
    obtain rfl : j = k := by omega
    exact broken first
  have early : j + 1 < k := by
    by_contra late
    obtain rfl : j + 1 = k := by omega
    exact broken second
  have alive : AliveAt moments entry (j + 1) := by
    by_cases same : j = i
    · subst j
      exact pending.looked (by omega)
    · exact (pending.wait (j + 1) (by omega) early).1
  have decided := rest alive
  cases policy : c.leasePolicy with
  | error =>
    have := pending.error policy
    omega
  | takeover =>
    have at_most := pending.takeover policy
    obtain rfl : j + 2 = k := by omega
    rw [policy] at decided
    exact broken decided
  | wait =>
    rw [policy] at decided
    obtain ⟨last,later,clean,ended⟩ := decided
    have short : last < k := by
      by_contra late
      exact broken (clean k (by omega) (by omega))
    obtain ⟨still,early⟩ := pending.wait last (by omega) short
    rcases ended with expired | waitedOut
    · exact expired still
    · have shorter : waited moments (j + 2) last ≤ waited moments (i + 2) last :=
        waited_later (by omega)
      linarith

theorem pending_clean (pending : Pending c moments entry i k) (clean : Clean moments k) :
    ∀ j, i ≤ j → j ≤ k → Clean moments j := by
  intro j above below
  rcases Nat.lt_or_eq_of_le below with before | same
  · exact pending.clean j above before
  · rwa [same]

theorem pending_looked (policy : c.leasePolicy ≠ .error) (created : Clean moments i)
    (listed : Clean moments (i + 1)) (alive : AliveAt moments entry (i + 1)) :
    Pending c moments entry i (i + 2) := by
  constructor
  · omega
  · intro j above below
    rcases (by omega : j = i ∨ j = i + 1) with rfl | rfl
    · exact created
    · exact listed
  · intro _
    exact alive
  · intro error
    contradiction
  · intro _
    omega
  · intro j above below
    omega

theorem pending_next (policy : c.leasePolicy = .wait) (pending : Pending c moments entry i k)
    (clean : Clean moments k) (alive : AliveAt moments entry k)
    (early : waited moments (i + 2) k < c.leaseWaitTimeout) (looking : i + 2 ≤ k) :
    Pending c moments entry i (k + 1) := by
  constructor
  · omega
  · intro j above below
    exact pending_clean pending clean j above (by omega)
  · intro _
    exact pending.looked looking
  · intro error
    rw [policy] at error
    contradiction
  · intro takeover
    rw [policy] at takeover
    contradiction
  · intro j above below
    by_cases same : j = k
    · subst j
      exact ⟨alive,early⟩
    · exact pending.wait j above (by omega)

theorem unhit_waited (policy : c.leasePolicy = .wait) (pending : Pending c moments entry i k)
    (clean : Clean moments k) (looking : i + 2 ≤ k)
    (ended : ¬ AliveAt moments entry k ∨ c.leaseWaitTimeout ≤ waited moments (i + 2) k) :
    Unhit c moments entry i := by
  have all_clean := pending_clean pending clean
  refine ⟨all_clean i (le_refl _) (by omega),all_clean (i + 1) (by omega) (by omega),?_⟩
  intro _
  rw [policy]
  exact ⟨k,looking,fun j above below => all_clean j (by omega) below,ended⟩

theorem held_waited (pending : Pending c moments entry i k) (alive : AliveAt moments entry k)
    (looking : i + 2 ≤ k) (waitedOut : c.leaseWaitTimeout ≤ waited moments (i + 2) k) :
    Held c moments entry i := by
  constructor
  · exact pending.looked looking
  · intro _
    refine ⟨k,looking,?_,waitedOut⟩
    intro j above below
    by_cases same : j = k
    · rwa [same]
    · exact (pending.wait j above (by omega)).1

theorem not_held_waited (policy : c.leasePolicy = .wait)
    (pending : Pending c moments entry i k) (expired : ¬ AliveAt moments entry k)
    (looking : i + 2 ≤ k) : ¬ Held c moments entry i := by
  intro held
  obtain ⟨last,later,alive,waitedOut⟩ := held.2 policy
  by_cases before : last < k
  · have early := (pending.wait last later before).2
    linarith
  · exact expired (alive k looking (by omega))

end

/-- What is settled before a setup starts: the moments its calls meet, from the number
    of calls made before it on, and the positions of those that may fail. -/
structure Forecast where
  moments : Nat → Moment
  first : Nat
  faulty : Finset Nat

section
variable (c : Config) (f : Forecast)

/-- No one else acts; failures are transient and do not read as the catalog's own
    answers. -/
structure Setting : Prop where
  alone : ∀ i, (f.moments i).others = id
  transient : ∀ i e, (f.moments i).fault = some e → isTransientError e = true
  foreign : ∀ i e, (f.moments i).fault = some e →
    isDuplicateConsumerError e c.name = false ∧ isMissingConsumerError e c.name = false
  counted : ∀ i, ¬ Clean f.moments i → i ∈ f.faulty

structure Standing (n : Nat) (s : Registry) : Prop where
  moments : s.moments = f.moments
  later : f.first ≤ s.calls.length
  budget : (f.faulty.filter fun i => s.calls.length ≤ i).card ≤ n

variable {p : Platform} {c f} {n : Nat} {s : Registry}

theorem fault_standing (h : Standing f n s) :
    s.moment.fault = (f.moments s.calls.length).fault := by
  rw [← h.moments]
  rfl

theorem clean_iff (h : Standing f n s) :
    Clean f.moments s.calls.length ↔ s.moment.fault = none := by
  rw [fault_standing h]
  rfl

theorem not_clean {e : Exc} (h : Standing f n s) (fault : s.moment.fault = some e) :
    ¬ Clean f.moments s.calls.length := by
  rw [clean_iff h, fault]
  exact Option.some_ne_none e

theorem wall_arrive (h : Standing f n s) (call : CatalogCall) :
    (s.arrive call).wall = (f.moments s.calls.length).wall := by
  rw [← h.moments]
  rfl

theorem mono_arrive (h : Standing f n s) (call : CatalogCall) :
    (s.arrive call).mono = s.mono + max 0 (f.moments s.calls.length).elapsed := by
  rw [← h.moments]
  rfl

@[simp] theorem length_arrive (call : CatalogCall) :
    (s.arrive call).calls.length = s.calls.length + 1 := by
  simp

theorem arrive_entries (setting : Setting c f) (h : Standing f n s) (call : CatalogCall) :
    (s.arrive call).entries = s.entries := by
  simp [Registry.arrive, Registry.moment, h.moments, setting.alone]

theorem standing_entries (h : Standing f n s) (entries : Catalog) :
    Standing f n { s with entries := entries } := ⟨h.moments,h.later,h.budget⟩

theorem standing_mono (h : Standing f n s) (mono : ℚ) : Standing f n { s with mono := mono } :=
  ⟨h.moments,h.later,h.budget⟩

theorem later_faults {faulty : Finset Nat} {i : Nat} :
    (faulty.filter fun j => i + 1 ≤ j) ⊆ faulty.filter fun j => i ≤ j := by
  intro j member
  rw [Finset.mem_filter] at member ⊢
  exact ⟨member.1,by omega⟩

theorem arrive_standing (h : Standing f n s) (call : CatalogCall) :
    Standing f n (s.arrive call) := by
  constructor
  · exact h.moments
  · have later := h.later
    rw [length_arrive]
    omega
  · rw [length_arrive]
    exact le_trans (Finset.card_le_card later_faults) h.budget

theorem arrive_failed (setting : Setting c f) (h : Standing f n s) (call : CatalogCall)
    {e : Exc} (fault : s.moment.fault = some e) :
    isTransientError e = true ∧ ∃ m, n = m + 1 ∧ Standing f m (s.arrive call) := by
  have counted : s.calls.length ∈ f.faulty := setting.counted _ (not_clean h fault)
  have fewer : (f.faulty.filter fun j => s.calls.length + 1 ≤ j).card <
      (f.faulty.filter fun j => s.calls.length ≤ j).card := by
    apply Finset.card_lt_card
    apply Finset.ssubset_iff_subset_ne.mpr
    constructor
    · exact later_faults
    · intro same
      have here : s.calls.length ∈ f.faulty.filter fun j => s.calls.length ≤ j := by simp [counted]
      rw [← same] at here
      simp at here
  have budget := h.budget
  constructor
  · rw [fault_standing h] at fault
    exact setting.transient _ e fault
  · refine ⟨n - 1,by omega,?_⟩
    have arrived := arrive_standing h call
    refine ⟨arrived.moments,arrived.later,?_⟩
    rw [length_arrive]
    omega

theorem fault_foreign (setting : Setting c f) (h : Standing f n s) {e : Exc}
    (fault : s.moment.fault = some e) :
    isDuplicateConsumerError e c.name = false ∧ isMissingConsumerError e c.name = false := by
  rw [fault_standing h] at fault
  exact setting.foreign _ e fault

theorem ends_tryCreate {ok : Bool → Registry → Prop} {err : Exc → Registry → Prop}
    (setting : Setting c f) (h : Standing f n s)
    (failed : ∀ e, s.moment.fault = some e → err e (s.arrive (.create c.name)))
    (taken : s.moment.fault = none → s.entries.has c.name = true →
      ok false (s.arrive (.create c.name)))
    (free : s.moment.fault = none → s.entries.has c.name = false →
      ok true { s.arrive (.create c.name) with entries := s.entries ++ [createdEntry c.name] }) :
    Ends (tryCreate p c) s ok err := by
  unfold tryCreate cdcConsumerCreate
  rw [ends_tryExcept, ends_bind]
  apply ends_callCatalog
  · intro e fault
    simp only [(fault_foreign setting h fault).1]
    split
    · exact failed e fault
    · exact failed e fault
  · intro e clean refused
    rw [arrive_entries setting h] at refused
    split at refused
    · cases refused
      simp only [(p.duplicate c.name).1, (p.duplicate c.name).2, if_true]
      exact taken clean ‹_›
    · cases refused
  · intro a entries clean done
    rw [arrive_entries setting h] at done
    split at done
    · cases done
    · rename_i absent
      cases done
      exact free clean (by simpa using absent)

/-- Interrupted by a transient failure, with the catalog as it was. -/
def Broken (f : Forecast) (entries : Catalog) (n : Nat) (e : Exc) (t : Registry) : Prop :=
  isTransientError e = true ∧ ∃ m, n = m + 1 ∧ Standing f m t ∧ t.entries = entries

theorem broken_arrive (setting : Setting c f) (h : Standing f n s) (call : CatalogCall)
    {e : Exc} (fault : s.moment.fault = some e) :
    Broken f s.entries n e (s.arrive call) := by
  obtain ⟨transient,m,spent,kept⟩ := arrive_failed setting h call fault
  exact ⟨transient,m,spent,kept,arrive_entries setting h call⟩

end

/-! The lease policy -/
section
variable (p : Platform) (c : Config)

open Classical in
/-- What the lease policy decides about the consumer's entry: the error it ends in, if
    any, and the catalog it leaves. -/
noncomputable def leaseVerdict (held : Prop) (entry : ConsumerListEntry) (entries : Catalog) :
    Option Exc × Catalog :=
  if held then
    match c.leasePolicy with
    | .error => (some (leasedError p c entry),entries)
    | .takeover => (none,entries.map (releaseEntry c.name))
    | .wait => (some (waitedError p c entry),entries)
  else (none,entries)

def Ordinary (entry : ConsumerListEntry) : Prop :=
  entry.ownerToken ≠ none →
    (c.leasePolicy = .error → isTransientError (leasedError p c entry) = false) ∧
    (c.leasePolicy = .wait → isTransientError (waitedError p c entry) = false)

/-- Interrupted where no attempt that began from call `i` on could have gone through. -/
def Cut (f : Forecast) (entry : ConsumerListEntry) (entries : Catalog) (n i : Nat) (e : Exc)
    (t : Registry) : Prop :=
  Broken f entries n e t ∧ ∀ j, i ≤ j → j < t.calls.length → ¬ Unhit c f.moments entry j

def Decides (f : Forecast) (entry : ConsumerListEntry) (entries : Catalog) (i : Nat)
    (v : Option Exc × Catalog) : Prop :=
  Unhit c f.moments entry i ∧ leaseVerdict p c (Held c f.moments entry i) entry entries = v

variable {p c} {f : Forecast} {entry : ConsumerListEntry} {entries : Catalog} {n i : Nat}
  {s : Registry}

theorem cut_arrive (setting : Setting c f) (h : Standing f n s)
    (pending : Pending c f.moments entry i s.calls.length) (call : CatalogCall) {e : Exc}
    (fault : s.moment.fault = some e) : Cut c f entry s.entries n i e (s.arrive call) := by
  constructor
  · exact broken_arrive setting h call fault
  · intro j above below
    rw [length_arrive] at below
    exact hit_of_pending pending (not_clean h fault) j above (by omega)

theorem ends_look (setting : Setting c f) (h : Standing f n s)
    (pending : Pending c f.moments entry i s.calls.length)
    (found : lookup c.name s.entries = some entry) :
    Ends (lookupConsumer c) s
      (fun looked t => looked = some entry ∧ t = s.arrive .list ∧
        Clean f.moments s.calls.length)
      (Cut c f entry s.entries n i) := by
  apply ends_lookupConsumer
  · intro e fault
    exact cut_arrive setting h pending .list fault
  · intro clean
    rw [arrive_entries setting h]
    exact ⟨found,rfl,(clean_iff h).mpr clean⟩

theorem leased_alive (h : Standing f n s) (alive : AliveAt f.moments entry s.calls.length) :
    leased (some entry) (s.arrive .list).wall = some entry := by
  rw [wall_arrive h]
  simpa [leased, AliveAt] using alive

theorem leased_expired (h : Standing f n s) (expired : ¬ AliveAt f.moments entry s.calls.length) :
    leased (some entry) (s.arrive .list).wall = none := by
  rw [wall_arrive h]
  simpa [leased, AliveAt] using expired

structure Waiting (c : Config) (f : Forecast) (entry : ConsumerListEntry) (entries : Catalog)
    (n i : Nat) (deadline : ℚ) (s : Registry) : Prop where
  standing : Standing f n s
  same : s.entries = entries
  pending : Pending c f.moments entry i s.calls.length
  looking : i + 2 ≤ s.calls.length
  clock : s.mono + c.leaseWaitTimeout = deadline +
    ∑ j ∈ Finset.Ico (i + 2) s.calls.length,
      (max 0 (f.moments j).elapsed + leaseWaitPollInterval)

theorem due_iff {deadline : ℚ} (h : Waiting c f entry entries n i deadline s) :
    deadline ≤ (s.arrive .list).mono ↔
      c.leaseWaitTimeout ≤ waited f.moments (i + 2) s.calls.length := by
  have clock := h.clock
  rw [mono_arrive h.standing, waited]
  constructor <;> intro <;> linarith

theorem waiting_next (setting : Setting c f) (policy : c.leasePolicy = .wait) {deadline : ℚ}
    (h : Waiting c f entry entries n i deadline s) (clean : Clean f.moments s.calls.length)
    (alive : AliveAt f.moments entry s.calls.length)
    (early : waited f.moments (i + 2) s.calls.length < c.leaseWaitTimeout) :
    Waiting c f entry entries n i deadline
      { s.arrive .list with mono := (s.arrive .list).mono + max 0 leaseWaitPollInterval } := by
  have poll : max 0 leaseWaitPollInterval = leaseWaitPollInterval := by
    norm_num [leaseWaitPollInterval]
  constructor
  · exact standing_mono (arrive_standing h.standing .list) _
  · exact (arrive_entries setting h.standing .list).trans h.same
  · rw [length_arrive]
    exact pending_next policy h.pending clean alive early h.looking
  · have looking := h.looking
    rw [length_arrive]
    omega
  · have clock := h.clock
    rw [length_arrive, Finset.sum_Ico_succ_top h.looking, mono_arrive h.standing, poll]
    linarith

theorem ends_wait (setting : Setting c f) (policy : c.leasePolicy = .wait)
    (found : lookup c.name entries = some entry) {deadline : ℚ}
    (start : Waiting c f entry entries n i deadline s) :
    Ends (awaitLease p c deadline) s
      (fun _ t => Unhit c f.moments entry i ∧ ¬ Held c f.moments entry i ∧ t.entries = entries)
      (fun e t => (Unhit c f.moments entry i ∧ Held c f.moments entry i ∧
        e = waitedError p c entry ∧ t.entries = entries) ∨ Cut c f entry entries n i e t) := by
  apply ends_awaitLease (Waiting c f entry entries n i deadline) _ start
  intro s h
  have looked := ends_look setting h.standing h.pending (by rw [h.same]; exact found)
  apply ends_mono looked
  · intro answer t facts
    obtain ⟨is_entry,arrived,clean⟩ := facts
    subst answer t
    have unchanged := (arrive_entries setting h.standing .list).trans h.same
    have looking := h.looking
    by_cases alive : AliveAt f.moments entry s.calls.length
    · rw [leased_alive h.standing alive]
      by_cases waitedOut : c.leaseWaitTimeout ≤ waited f.moments (i + 2) s.calls.length
      · dsimp only
        rw [if_pos ((due_iff h).mpr waitedOut)]
        left
        exact ⟨unhit_waited policy h.pending clean looking (Or.inr waitedOut),
          held_waited h.pending alive looking waitedOut,rfl,unchanged⟩
      · have early : ¬ deadline ≤ (s.arrive .list).mono := mt (due_iff h).mp waitedOut
        dsimp only
        rw [if_neg early]
        exact waiting_next setting policy h clean alive (not_le.mp waitedOut)
    · rw [leased_expired h.standing alive]
      exact ⟨unhit_waited policy h.pending clean looking (Or.inl alive),
        not_held_waited policy h.pending alive looking,unchanged⟩
  · intro e t cut
    right
    rwa [h.same] at cut

theorem leaseVerdict_free {held : Prop} (free : ¬ held) :
    leaseVerdict p c held entry entries = (none,entries) := if_neg free

theorem not_held_expired (expired : ¬ AliveAt f.moments entry (i + 1)) :
    ¬ Held c f.moments entry i := fun held => expired held.1

theorem ends_takeover (setting : Setting c f) (h : Standing f n s)
    (pending : Pending c f.moments entry i s.calls.length)
    (taken : s.entries.has c.name = true) :
    Ends (cdcConsumerForceRelease p c.name) s
      (fun _ t => Clean f.moments s.calls.length ∧
        t.entries = s.entries.map (releaseEntry c.name))
      (Cut c f entry s.entries n i) := by
  unfold cdcConsumerForceRelease
  apply ends_callCatalog
  · intro e fault
    exact cut_arrive setting h pending _ fault
  · intro e _ refused
    rw [arrive_entries setting h, if_pos taken] at refused
    cases refused
  · intro a entries clean done
    rw [arrive_entries setting h, if_pos taken] at done
    cases done
    exact ⟨(clean_iff h).mpr clean,rfl⟩

theorem ends_applyLeasePolicy (setting : Setting c f) (ordinary : Ordinary p c entry)
    (h : Standing f n s) (created : Clean f.moments i) (calls : s.calls.length = i + 1)
    (found : lookup c.name s.entries = some entry) :
    Ends (applyLeasePolicy p c) s
      (fun _ t => Decides p c f entry s.entries i (none,t.entries))
      (fun e t => (isTransientError e = false ∧
          Decides p c f entry s.entries i (some e,t.entries)) ∨
        Cut c f entry s.entries n i e t) := by
  have pending : Pending c f.moments entry i s.calls.length := by
    rw [calls]
    exact pending_created created
  unfold applyLeasePolicy
  rw [ends_bind]
  apply ends_mono (ends_look setting h pending found) _ (fun _ _ cut => Or.inr cut)
  intro answer t facts
  obtain ⟨is_entry,arrived,listed⟩ := facts
  subst answer t
  have met := arrive_standing h .list
  have unchanged := arrive_entries setting h .list
  rw [ends_bind, ends_get]
  by_cases alive : AliveAt f.moments entry s.calls.length
  · have plain := ordinary (owned_of_alive alive)
    rw [leased_alive h alive]
    rw [calls] at alive listed
    have looked : c.leasePolicy ≠ .error →
        Pending c f.moments entry i (s.arrive .list).calls.length := by
      intro policy
      rw [length_arrive, calls]
      exact pending_looked policy created listed alive
    cases policy : c.leasePolicy with
    | error =>
      have held : Held c f.moments entry i := by
        refine ⟨alive,?_⟩
        intro wait
        rw [policy] at wait
        contradiction
      have unhit : Unhit c f.moments entry i := by
        refine ⟨created,listed,?_⟩
        intro _
        rw [policy]
        trivial
      have decided : leaseVerdict p c (Held c f.moments entry i) entry s.entries =
          (some (leasedError p c entry),s.entries) := by
        simp [leaseVerdict, held, policy]
      rw [ends_throw]
      left
      exact ⟨plain.1 policy,unhit,by rw [decided, unchanged]⟩
    | takeover =>
      have held : Held c f.moments entry i := by
        refine ⟨alive,?_⟩
        intro wait
        rw [policy] at wait
        contradiction
      have decided : leaseVerdict p c (Held c f.moments entry i) entry s.entries =
          (none,s.entries.map (releaseEntry c.name)) := by
        simp [leaseVerdict, held, policy]
      have taken : (s.arrive .list).entries.has c.name = true := by
        rw [unchanged]
        exact has_of_lookup found
      apply ends_mono (ends_takeover setting met (looked (by simp [policy])) taken)
      · intro _ t facts
        obtain ⟨clean,released⟩ := facts
        rw [length_arrive, calls] at clean
        constructor
        · refine ⟨created,listed,?_⟩
          intro _
          rw [policy]
          exact clean
        · rw [decided, released, unchanged]
      · intro e t cut
        right
        rwa [unchanged] at cut
    | wait =>
      have waiting : Waiting c f entry s.entries n i
          ((s.arrive .list).mono + c.leaseWaitTimeout) (s.arrive .list) := by
        refine ⟨met,unchanged,looked (by simp [policy]),?_,?_⟩
        · rw [length_arrive, calls]
        · rw [length_arrive, calls, Finset.Ico_self, Finset.sum_empty, add_zero]
      simp only [ends_bind, ends_get]
      apply ends_mono (ends_wait setting policy found waiting)
      · intro _ t facts
        obtain ⟨unhit,free,kept⟩ := facts
        exact ⟨unhit,by rw [leaseVerdict_free free, kept]⟩
      · intro e t ended
        rcases ended with ⟨unhit,held,waited_,kept⟩ | cut
        · subst e
          left
          refine ⟨plain.2 policy,unhit,?_⟩
          simp [leaseVerdict, held, policy, kept]
        · right
          exact cut
  · rw [leased_expired h alive, ends_pure, unchanged]
    rw [calls] at alive listed
    constructor
    · refine ⟨created,listed,?_⟩
      intro still
      contradiction
    · exact leaseVerdict_free (not_held_expired alive)

structure Using (c : Config) (f : Forecast) (entry : ConsumerListEntry) (entries : Catalog)
    (n : Nat) (s : Registry) : Prop where
  standing : Standing f n s
  same : settled c.name s.entries = entries
  hit : ∀ j, f.first ≤ j → j < s.calls.length → ¬ Unhit c f.moments entry j

theorem using_of_cut {m : Nat} {t : Registry} (h : Using c f entry entries n s)
    (standing : Standing f m t) (same : settled c.name t.entries = entries)
    (hit : ∀ j, s.calls.length ≤ j → j < t.calls.length → ¬ Unhit c f.moments entry j) :
    Using c f entry entries m t := by
  refine ⟨standing,same,?_⟩
  intro j above below
  by_cases before : j < s.calls.length
  · exact h.hit j above before
  · exact hit j (by omega) below

theorem ends_lease_using (setting : Setting c f) (ordinary : Ordinary p c entry)
    (found : lookup c.name entries = some entry) (h : Using c f entry entries n s)
    (clean : s.moment.fault = none) {t : Registry} (standing : Standing f n t)
    (same : t.entries = entries) (calls : t.calls.length = s.calls.length + 1) :
    Ends (applyLeasePolicy p c) t
      (fun _ u => Decides p c f entry entries s.calls.length (none,u.entries))
      (fun e u => (isTransientError e = false ∧
          Decides p c f entry entries s.calls.length (some e,u.entries)) ∨
        isTransientError e = true ∧ ∃ m, n = m + 1 ∧ Using c f entry entries m u) := by
  subst entries
  rw [← clean_iff h.standing] at clean
  apply ends_mono (ends_applyLeasePolicy setting ordinary standing clean calls found)
  · exact fun _ _ h => h
  · intro e u ended
    rcases ended with refused | cut
    · exact Or.inl refused
    · obtain ⟨⟨transient,m,spent,left,kept⟩,hit⟩ := cut
      right
      refine ⟨transient,m,spent,using_of_cut h left ?_ hit⟩
      rw [kept, ← h.same, settled_settled]

theorem ends_setup_use (setting : Setting c f) (use : c.onExists = .use)
    (ordinary : Ordinary p c entry) (found : lookup c.name entries = some entry)
    (h : Using c f entry entries n s) :
    Ends (setupAndApplyLeasePolicy p c) s
      (fun _ t => Decides p c f entry entries s.calls.length (none,t.entries))
      (fun e t => (isTransientError e = false ∧
          Decides p c f entry entries s.calls.length (some e,t.entries)) ∨
        isTransientError e = true ∧ ∃ m, n = m + 1 ∧ Using c f entry entries m t) := by
  unfold setupAndApplyLeasePolicy setupConsumer
  simp only [use, reduceCtorEq, if_false, ends_bind]
  apply ends_tryCreate setting h.standing
  · intro e fault
    right
    have cut : Cut c f entry s.entries n s.calls.length e (s.arrive (.create c.name)) :=
      cut_arrive setting h.standing pending_start (.create c.name) fault
    obtain ⟨⟨transient,m,spent,left,kept⟩,hit⟩ := cut
    refine ⟨transient,m,spent,using_of_cut h left ?_ hit⟩
    rw [kept, h.same]
  · intro clean taken
    simp only [Bool.false_eq_true, if_false, ends_pure]
    apply ends_lease_using setting ordinary found h clean (arrive_standing h.standing _)
    · rw [arrive_entries setting h.standing, ← h.same, settled_taken taken]
    · exact length_arrive _
  · intro clean free
    simp only [if_true, ends_pure]
    apply ends_lease_using setting ordinary found h clean
    · exact standing_entries (arrive_standing h.standing (.create c.name)) _
    · rw [← h.same, settled_free free]
    · exact length_arrive (.create c.name)

theorem isTransient_exc (e : Exc) : isTransient e = isTransientError e := rfl

/-- Under `use`, the retried setup comes to what the first attempt decides that no
    failure hits. -/
theorem ends_retried_use (setting : Setting c f) (use : c.onExists = .use)
    (ordinary : Ordinary p c entry) (found : lookup c.name entries = some entry) (rest : ℚ)
    (h : Using c f entry entries n s) :
    Ends (attempts (sleep rest) (setupAndApplyLeasePolicy p c) n) s
      (fun _ t => ∃ i, FirstUnhit c f.moments entry f.first i ∧
        leaseVerdict p c (Held c f.moments entry i) entry entries = (none,t.entries))
      (fun e t => ∃ i, FirstUnhit c f.moments entry f.first i ∧
        leaseVerdict p c (Held c f.moments entry i) entry entries = (some e,t.entries)) := by
  apply ends_attempts_budget (Using c f entry entries) _ _ n s h
  · intro n s h
    have first : Unhit c f.moments entry s.calls.length →
        FirstUnhit c f.moments entry f.first s.calls.length :=
      fun unhit => ⟨h.standing.later,unhit,h.hit⟩
    apply ends_mono (ends_setup_use setting use ordinary found h)
    · intro _ t facts
      obtain ⟨unhit,decided⟩ := facts
      exact ⟨s.calls.length,first unhit,decided⟩
    · intro e t ended
      rw [isTransient_exc]
      rcases ended with ⟨final,unhit,decided⟩ | ⟨transient,m,spent,left⟩
      · simp only [final, Bool.false_eq_true, if_false]
        exact ⟨s.calls.length,first unhit,decided⟩
      · rw [if_pos transient]
        exact ⟨m,spent,left⟩
  · intro n s h
    exact ⟨standing_mono h.standing _,h.same,h.hit⟩

theorem unhit_of_faultless (setting : Setting c f) (use : c.onExists = .use)
    (ordinary : Ordinary p c entry) (found : lookup c.name entries = some entry)
    (h : Using c f entry entries 0 s) : Unhit c f.moments entry s.calls.length := by
  have ended := ends_setup_use setting use ordinary found h
  apply ends_final (fun _ => Unhit c f.moments entry s.calls.length)
  apply ends_mono ended
  · intro _ _ facts
    exact facts.1
  · intro e t ended
    rcases ended with ⟨_,unhit,_⟩ | ⟨_,m,spent,_⟩
    · exact unhit
    · omega

end

/-! The other policies -/
section
variable {p : Platform} {c : Config} {f : Forecast} {n : Nat} {s : Registry}

theorem ends_ignoreMissing {call : CatalogCall} {effect : Catalog → Catalog}
    (setting : Setting c f) (h : Standing f n s) :
    Ends (ignoreMissing c.name (callCatalog call fun entries =>
        if entries.has c.name then .ok ((),effect entries) else .error (p.doesNotExist c.name))) s
      (fun _ t => t = { s.arrive call with
        entries := if s.entries.has c.name then effect s.entries else s.entries })
      (Broken f s.entries n) := by
  unfold ignoreMissing
  rw [ends_tryExcept]
  apply ends_callCatalog
  · intro e fault
    simp only [(fault_foreign setting h fault).2]
    split
    · exact broken_arrive setting h call fault
    · exact broken_arrive setting h call fault
  · intro e _ refused
    rw [arrive_entries setting h] at refused
    split at refused
    · cases refused
    · rename_i absent
      cases refused
      simp only [(p.missing c.name).1, (p.missing c.name).2, if_true]
      rw [if_neg absent, ← arrive_entries setting h call]
      rfl
  · intro a entries _ done
    rw [arrive_entries setting h] at done
    split at done
    · rename_i present
      cases done
      rw [if_pos present]
    · cases done

def Replacing (c : Config) (f : Forecast) (entries : Catalog) (n : Nat) (s : Registry) : Prop :=
  Standing f n s ∧ without c.name s.entries = entries

theorem replacing_of_broken {entries : Catalog} {e : Exc} {t : Registry}
    (broken : Broken f entries n e t) :
    isTransientError e = true ∧ ∃ m, n = m + 1 ∧
      Replacing c f (without c.name entries) m t := by
  obtain ⟨transient,m,spent,kept,unchanged⟩ := broken
  exact ⟨transient,m,spent,kept,by rw [unchanged]⟩

theorem ends_dropConsumerIfExists (setting : Setting c f) (h : Standing f n s) :
    Ends (dropConsumerIfExists p c) s
      (fun _ t => Standing f n t ∧ t.entries = without c.name s.entries)
      (fun e t => isTransientError e = true ∧ ∃ m, n = m + 1 ∧
        Replacing c f (without c.name s.entries) m t) := by
  unfold dropConsumerIfExists
  rw [ends_bind]
  apply ends_mono (ends_ignoreMissing setting h)
  · intro _ t released
    have kept : Standing f n t := by
      rw [released]
      exact standing_entries (arrive_standing h _) _
    have same : without c.name t.entries = without c.name s.entries := by
      rw [released]
      dsimp only
      split
      · exact without_release
      · rfl
    apply ends_mono (ends_ignoreMissing setting kept)
    · intro _ u dropped
      constructor
      · rw [dropped]
        exact standing_entries (arrive_standing kept _) _
      · rw [dropped, ← same]
        dsimp only
        cases present : t.entries.has c.name with
        | true => rfl
        | false => exact (without_free present).symm
    · intro e u broken
      rw [← same]
      exact replacing_of_broken broken
  · intro e t broken
    exact replacing_of_broken broken

theorem ends_setup_replace (setting : Setting c f) (replace : c.onExists = .replace)
    (h : Standing f n s) :
    Ends (setupAndApplyLeasePolicy p c) s
      (fun _ t => t.entries = without c.name s.entries ++ [createdEntry c.name])
      (fun e t => isTransientError e = true ∧ ∃ m, n = m + 1 ∧
        Replacing c f (without c.name s.entries) m t) := by
  unfold setupAndApplyLeasePolicy setupConsumer
  simp only [replace, if_true, ends_bind, ends_pure]
  apply ends_mono (ends_dropConsumerIfExists setting h) _ (fun _ _ h => h)
  intro _ t facts
  obtain ⟨kept,dropped⟩ := facts
  have free : t.entries.has c.name = false := by
    rw [dropped]
    exact free_without
  unfold cdcConsumerCreate
  apply ends_callCatalog
  · intro e fault
    have broken := replacing_of_broken (c := c) (broken_arrive setting kept (.create c.name) fault)
    rwa [without_free free, dropped] at broken
  · intro e _ refused
    rw [arrive_entries setting kept, free] at refused
    cases refused
  · intro a entries _ done
    rw [arrive_entries setting kept, free] at done
    cases done
    rw [dropped]

theorem ends_retried_replace (setting : Setting c f) (replace : c.onExists = .replace) (rest : ℚ)
    (h : Standing f n s) :
    Ends (attempts (sleep rest) (setupAndApplyLeasePolicy p c) n) s
      (fun _ t => t.entries = without c.name s.entries ++ [createdEntry c.name])
      (fun _ _ => False) := by
  apply ends_attempts_budget (Replacing c f (without c.name s.entries)) _ _ n s ⟨h,rfl⟩
  · intro n t facts
    obtain ⟨standing,same⟩ := facts
    rw [← same]
    apply ends_mono (ends_setup_replace setting replace standing) (fun _ _ h => h)
    intro e u ended
    rw [isTransient_exc, if_pos ended.1]
    exact ended.2
  · intro n t facts
    exact ⟨standing_mono facts.1 _,facts.2⟩

theorem ends_setup_taken (setting : Setting c f) (error : c.onExists = .error)
    (h : Standing f n s) (taken : s.entries.has c.name = true) :
    Ends (setupAndApplyLeasePolicy p c) s (fun _ _ => False)
      (fun e t => (e = existsError p c ∧ Standing f n t ∧ t.entries = s.entries) ∨
        Broken f s.entries n e t) := by
  unfold setupAndApplyLeasePolicy setupConsumer
  simp only [error, reduceCtorEq, if_false, ends_bind]
  apply ends_tryCreate setting h
  · intro e fault
    right
    exact broken_arrive setting h _ fault
  · intro _ _
    left
    exact ⟨rfl,arrive_standing h _,arrive_entries setting h _⟩
  · intro _ free
    rw [taken] at free
    contradiction

theorem ends_retried_taken (setting : Setting c f) (error : c.onExists = .error)
    (ordinary : isTransientError (existsError p c) = false) (rest : ℚ) (h : Standing f n s)
    (taken : s.entries.has c.name = true) :
    Ends (attempts (sleep rest) (setupAndApplyLeasePolicy p c) n) s (fun _ _ => False)
      (fun e t => e = existsError p c ∧ t.entries = s.entries) := by
  apply ends_attempts_budget (fun n t => Standing f n t ∧ t.entries = s.entries) _ _ n s ⟨h,rfl⟩
  · intro n t facts
    obtain ⟨standing,same⟩ := facts
    rw [← same] at taken
    apply ends_mono (ends_setup_taken setting error standing taken) (fun _ _ no => no)
    intro e u ended
    rw [isTransient_exc]
    rcases ended with ⟨refused,_,kept⟩ | ⟨transient,m,spent,left,kept⟩
    · rw [refused, ordinary, if_neg Bool.false_ne_true]
      exact ⟨rfl,kept.trans same⟩
    · rw [if_pos transient]
      exact ⟨m,spent,left,kept.trans same⟩
  · intro n t facts
    exact ⟨standing_mono facts.1 _,facts.2⟩

end
end CdcSetupRetries
