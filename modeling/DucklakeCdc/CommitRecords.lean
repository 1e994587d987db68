import DucklakeCdc.SinkDelivery
import Mathlib.Data.List.Perm.Subperm
import Mathlib.Data.List.TakeWhile

/-!
What a `StdoutSink` among the sinks of `run` prints. It writes the commit record of a
batch before the sinks after it have seen the batch and before the cursor moves, so the
records of an execution are matched by its commits only where no failure comes after one.
-/
namespace CdcCommitRecords
open Programs Histories CdcBatch CdcRetry CdcLoop CdcDelivery DeliveryProtocol

inductive Record (ι : Type) where
  | window (batch : Batch ι)
  | item (batch : Batch ι) (item : ι)
  | commit (batch : Batch ι)

section
variable {ι : Type} {m : Type → Type} [Monad m]

def write (emit : Record ι → m Unit) (batch : Batch ι) : m Unit := do
  emit (.window batch)
  batch.items.forM fun item => emit (.item batch item)
  emit (.commit batch)

def recordsOf (batch : Batch ι) : List (Record ι) :=
  .window batch :: batch.items.map (.item batch) ++ [.commit batch]

theorem write_eq [LawfulMonad m] (emit : Record ι → m Unit) (batch : Batch ι) :
    write emit batch = (recordsOf batch).forM emit := by
  simp [write, recordsOf]

end

/-- How one `emit` ends: `json.dumps` or the stream's `write` may raise before the line is out,
    `flush` after. -/
inductive Emission where
  | done
  | refused (e : Exc)
  | unflushed (e : Exc)

structure Stream (ι : Type) where
  records : List (Record ι) := []
  emissions : Nat → Emission := fun _ => .done

section
variable {ι : Type}

def emit (record : Record ι) : EStateM Exc (Stream ι) Unit := do
  let s ← get
  let rest : Stream ι := { s with emissions := fun n => s.emissions (n + 1) }
  match s.emissions 0 with
  | .done => set { rest with records := s.records ++ [record] }
  | .refused e => do
    set rest
    throw e
  | .unflushed e => do
    set { rest with records := s.records ++ [record] }
    throw e

def Writes (batch : Batch ι) (emissions : Nat → Emission) (raised : Option Exc)
    (before after : List (Record ι)) : Prop :=
  Ends (write emit batch) ⟨before,emissions⟩ (fun _ s => raised = none ∧ s.records = after)
    (fun e s => raised = some e ∧ s.records = after)

/-- What a `StdoutSink` at position `j` prints in the course of these events, and the batches
    it was given, with how their emits ended. -/
inductive Prints (j : Nat) : List (Event ι) → List (Batch ι × (Nat → Emission)) →
    List (Record ι) → Prop where
  | start : Prints j [] [] []
  | other {events : List (Event ι)} {writes : List (Batch ι × (Nat → Emission))}
      {stream : List (Record ι)} {event : Event ι}
      (elsewhere : ∀ batch raised, event ≠ .wrote j batch raised) (h : Prints j events writes stream) :
      Prints j (events ++ [event]) writes stream
  | wrote {events : List (Event ι)} {writes : List (Batch ι × (Nat → Emission))}
      {before after : List (Record ι)} {batch : Batch ι} {emissions : Nat → Emission}
      {raised : Option Exc} (h : Prints j events writes before)
      (ran : Writes batch emissions raised before after) :
      Prints j (events ++ [.wrote j batch raised]) (writes ++ [(batch,emissions)]) after

def commitRecords (stream : List (Record ι)) : List (Batch ι) :=
  stream.filterMap fun
    | .commit batch => some batch
    | _ => none

def committed (events : List (Event ι)) : List (Batch ι) :=
  events.filterMap fun
    | .commitCalled batch _ none => some batch
    | _ => none

/-- The write fails in the `flush` after the commit record. -/
def LateFlush (batch : Batch ι) (emissions : Nat → Emission) : Prop :=
  (∀ i ≤ batch.items.length, emissions i = .done) ∧
    ∃ e, emissions (batch.items.length + 1) = .unflushed e

/-- Every commit record has a successful `cdc_commit` of its own. -/
def Matched (stream : List (Record ι)) (events : List (Event ι)) : Prop :=
  (commitRecords stream).Subperm (committed events)

def LateRefusal (sinks : List Sink) (j : Nat) : Event ι → Prop
  | .wrote i _ raised => j < i ∧ ∃ sink, sinks[i]? = some sink ∧ ¬ Passes sink raised
  | _ => False

/-- No failure comes after `StdoutSink` has printed a commit record: its own write does not
    fail in that record's flush, no sink after it refuses the batch, and the execution does
    not end with a batch that every sink has passed and that was not committed. -/
structure Punctual (sinks : List Sink) (j : Nat) (trace : List (Event ι))
    (writes : List (Batch ι × (Nat → Emission))) : Prop where
  flushed : ∀ given ∈ writes, ¬ LateFlush given.1 given.2
  accepted : ∀ event ∈ sinceStart trace, ¬ LateRefusal sinks j event
  settled : ∀ batch, ¬ Path (Follows sinks) .ended trace (.delivering batch sinks.length)

def stdoutSink : Sink := ⟨"stdout",true⟩

end

section
variable {ι : Type} {batch : Batch ι} {before after : List (Record ι)} {emissions : Nat → Emission}
  {raised : Option Exc}

theorem ends_emits (records : List (Record ι)) (before : List (Record ι))
    (emissions : Nat → Emission) :
    Ends (records.forM emit) ⟨before,emissions⟩
      (fun _ s => (∀ i < records.length, emissions i = .done) ∧ s.records = before ++ records)
      (fun _ s => ∃ k < records.length, (∀ i < k, emissions i = .done) ∧
        ((∃ e, emissions k = .refused e) ∧ s.records = before ++ records.take k ∨
          (∃ e, emissions k = .unflushed e) ∧ s.records = before ++ records.take (k + 1))) := by
  induction records generalizing before emissions with
  | nil => simp
  | cons record records ih =>
    change Ends (emit record >>= fun _ => records.forM emit) _ _ _
    rw [ends_bind, emit, ends_bind, ends_get]
    cases first : emissions 0 with
    | done =>
      simp only [first, ends_set]
      refine ends_mono (ih _ _) ?_ ?_
      · rintro _ s ⟨done,same⟩
        refine ⟨?_,by simpa using same⟩
        intro i below
        cases i with
        | zero => exact first
        | succ i => exact done i (by simpa using below)
      · rintro e s ⟨k,inside,done,same⟩
        refine ⟨k + 1,by simpa using inside,?_,by simpa using same⟩
        intro i below
        cases i with
        | zero => exact first
        | succ i => exact done i (by omega)
    | refused e =>
      simp only [first, ends_bind, ends_set, ends_throw]
      exact ⟨0,by simp,by simp,Or.inl ⟨⟨e,first⟩,by simp⟩⟩
    | unflushed e =>
      simp only [first, ends_bind, ends_set, ends_throw]
      exact ⟨0,by simp,by simp,Or.inr ⟨⟨e,first⟩,by simp⟩⟩

theorem commitRecords_append (first second : List (Record ι)) :
    commitRecords (first ++ second) = commitRecords first ++ commitRecords second :=
  List.filterMap_append

theorem length_recordsOf (batch : Batch ι) : (recordsOf batch).length = batch.items.length + 2 := by
  simp [recordsOf]

theorem commitRecords_recordsOf (batch : Batch ι) : commitRecords (recordsOf batch) = [batch] := by
  have items : commitRecords (batch.items.map (.item batch)) = [] := by
    simp [commitRecords]
  rw [recordsOf, commitRecords_append, ← List.singleton_append, commitRecords_append, items]
  rfl

theorem commitRecords_take {k : Nat} (short : k < (recordsOf batch).length) :
    commitRecords ((recordsOf batch).take k) = [] := by
  have prefix_ : (recordsOf batch).take k =
      (.window batch :: batch.items.map (.item batch)).take k := by
    rw [recordsOf, List.take_append_of_le_length]
    rw [length_recordsOf] at short
    simp
    omega
  rw [prefix_, commitRecords, List.filterMap_eq_nil_iff]
  intro record member
  rcases List.mem_cons.mp (List.mem_of_mem_take member) with rfl | item
  · rfl
  · obtain ⟨x,_,rfl⟩ := List.mem_map.mp item
    rfl

theorem writes_cases (ran : Writes batch emissions raised before after) :
    (raised = none ∧ ¬ LateFlush batch emissions ∧
        commitRecords after = commitRecords before ++ [batch]) ∨
      (raised ≠ none ∧ LateFlush batch emissions ∧
        commitRecords after = commitRecords before ++ [batch]) ∨
      (raised ≠ none ∧ ¬ LateFlush batch emissions ∧ commitRecords after = commitRecords before) := by
  have both := ends_and ran (write_eq emit batch ▸ ends_emits (recordsOf batch) before emissions)
  have length := length_recordsOf batch
  rcases ends_cases both with
    ⟨_,_,_,⟨none_,same⟩,done,all⟩ | ⟨_,_,_,⟨some_,same⟩,k,inside,done,lines⟩
  · have flushed : ¬ LateFlush batch emissions := by
      rintro ⟨_,e,last⟩
      simp [done (batch.items.length + 1) (by omega)] at last
    rw [← same, all, commitRecords_append, commitRecords_recordsOf]
    exact Or.inl ⟨none_,flushed,rfl⟩
  · have raises : raised ≠ none := by simp [some_]
    right
    rcases lines with ⟨⟨e,refused⟩,lines⟩ | ⟨⟨e,unflushed⟩,lines⟩
    · have early : ¬ LateFlush batch emissions := by
        rintro ⟨before,e',last⟩
        by_cases at_ : k ≤ batch.items.length
        · simp [before k at_] at refused
        · obtain rfl : k = batch.items.length + 1 := by omega
          simp [last] at refused
      rw [← same, lines, commitRecords_append, commitRecords_take inside, List.append_nil]
      exact Or.inr ⟨raises,early,rfl⟩
    · by_cases last : k + 1 < (recordsOf batch).length
      · have early : ¬ LateFlush batch emissions := by
          rintro ⟨before,_⟩
          simp [before k (by omega)] at unflushed
        rw [← same, lines, commitRecords_append, commitRecords_take last, List.append_nil]
        exact Or.inr ⟨raises,early,rfl⟩
      · rw [← same, lines, List.take_of_length_le (by omega), commitRecords_append,
          commitRecords_recordsOf]
        obtain rfl : k = batch.items.length + 1 := by omega
        exact Or.inl ⟨raises,⟨fun i below => done i (by omega),e,unflushed⟩,rfl⟩

end

section
variable {ι : Type} {sinks : List Sink} {j : Nat} {p q : Phase ι} {events : List (Event ι)}
  {writes : List (Batch ι × (Nat → Emission))} {stream : List (Record ι)}

theorem follows_unique {event : Event ι} {q' : Phase ι} (h : Follows sinks p event q)
    (h' : Follows sinks p event q') : q = q' := by
  cases h with
  | started => cases h'; rfl
  | landed => cases h'; rfl
  | listened idle => cases h'; rfl
  | retried => cases h'; rfl
  | committed => cases h'; rfl
  | passed next at_ pass =>
    cases h' with
    | passed => rfl
    | refused _ at_' fail => exact absurd (Option.some.inj (at_.symm.trans at_') ▸ pass) fail
  | refused next at_ fail =>
    cases h' with
    | passed _ at_' pass => exact absurd (Option.some.inj (at_.symm.trans at_') ▸ pass) fail
    | refused => rfl

theorem path_unique {q' : Phase ι} (path : Path (Follows sinks) p events q)
    (path' : Path (Follows sinks) p events q') : q = q' := by
  induction path with
  | nil => cases path'; rfl
  | cons first rest ih =>
    cases path' with
    | cons first' rest' =>
      cases follows_unique first first'
      exact ih rest'

def Late (sinks : List Sink) (j : Nat) (events : List (Event ι))
    (writes : List (Batch ι × (Nat → Emission))) : Prop :=
  (∃ given ∈ writes, LateFlush given.1 given.2) ∨ ∃ event ∈ events, LateRefusal sinks j event

/-- In phase `p` one batch may have its record without its commit yet; where the execution has
    ended, one has if and only if a failure came late. -/
def Accounts (j : Nat) (late : Prop) (outstanding : Option (Batch ι)) : Phase ι → Prop
  | .ended => outstanding ≠ none ↔ late
  | .delivering batch n => ¬ late ∧ outstanding = if j < n then some batch else none
  | _ => ¬ late ∧ outstanding = none

theorem committed_append (first second : List (Event ι)) :
    committed (first ++ second) = committed first ++ committed second := List.filterMap_append

theorem late_snoc {event : Event ι} :
    Late sinks j (events ++ [event]) writes ↔ Late sinks j events writes ∨ LateRefusal sinks j event := by
  simp [Late, or_and_right, exists_or, or_assoc]

theorem late_write {batch : Batch ι} {emissions : Nat → Emission} {raised : Option Exc} :
    Late sinks j (events ++ [.wrote j batch raised]) (writes ++ [(batch,emissions)]) ↔
      Late sinks j events writes ∨ LateFlush batch emissions := by
  have own : ¬ LateRefusal sinks j (.wrote j batch raised) := fun h => absurd h.1 (Nat.lt_irrefl j)
  rw [late_snoc]
  simp only [own, or_false]
  simp [Late, or_and_right, exists_or, or_right_comm]

theorem outstanding_before {late : Prop} {outstanding : Option (Batch ι)} {batch : Batch ι} {i : Nat}
    (awaits : p.Awaits batch i) (h : Accounts j late outstanding p) :
    ¬ late ∧ outstanding = if j < i then some batch else none := by
  rcases awaits with ⟨rfl,rfl⟩ | rfl
  · exact h
  · exact h

theorem accounts_idle {late : Prop} {outstanding : Option (Batch ι)} (idle : p.Idle) :
    Accounts j late outstanding p ↔ ¬ late ∧ outstanding = none := by
  cases p with
  | ready => rfl
  | settled => rfl
  | ended => exact idle.elim
  | delivering => exact idle.elim

theorem accounts_other {event : Event ι} {late : Prop} {outstanding : Option (Batch ι)}
    (inside : j < sinks.length) (running : event ≠ .started)
    (elsewhere : ∀ batch raised, event ≠ .wrote j batch raised) (step : Follows sinks p event q)
    (h : Accounts j late outstanding p) :
    ∃ outstanding', outstanding.toList = committed [event] ++ outstanding'.toList ∧
      Accounts j (late ∨ LateRefusal sinks j event) outstanding' q := by
  cases step with
  | started => contradiction
  | landed => exact ⟨outstanding,rfl,by simpa only [LateRefusal, or_false] using h⟩
  | listened idle =>
    obtain ⟨timely,rfl⟩ := (accounts_idle idle).mp h
    exact ⟨none,rfl,by simpa [LateRefusal, Accounts] using timely⟩
  | @passed _ i batch raised sink next at_ pass =>
    obtain ⟨timely,rfl⟩ := outstanding_before next h
    have other : i ≠ j := fun same => elsewhere batch raised (same ▸ rfl)
    have accepted : ¬ LateRefusal sinks j (.wrote i batch raised) := by
      rintro ⟨_,sink',at_',fail⟩
      exact fail (Option.some.inj (at_.symm.trans at_') ▸ pass)
    refine ⟨_,rfl,by simp [timely, accepted],?_⟩
    have same : j < i ↔ j < i + 1 := by omega
    simp only [same]
  | @refused _ i batch raised sink next at_ fail =>
    obtain ⟨timely,rfl⟩ := outstanding_before next h
    refine ⟨_,rfl,?_⟩
    have refusal : LateRefusal sinks j (.wrote i batch raised) ↔ j < i :=
      ⟨fun late => late.1,fun later => ⟨later,sink,at_,fail⟩⟩
    by_cases later : j < i <;> simp [Accounts, timely, refusal, later]
  | retried => exact ⟨outstanding,rfl,by simpa only [LateRefusal, or_false] using h⟩
  | @committed batch moved =>
    obtain ⟨timely,rfl⟩ := h
    rw [if_pos inside]
    exact ⟨none,rfl,by simpa [LateRefusal, Accounts] using timely⟩

/-- In the course of an execution the commit records are those of the batches committed so far,
    and at most one more. -/
theorem records_balance (stdout : sinks[j]? = some stdoutSink) (begin_ : q = .ready ∨ q = .ended)
    (prints : Prints j events writes stream) (running : .started ∉ events)
    (path : Path (Follows sinks) q events p) :
    ∃ outstanding : Option (Batch ι),
      commitRecords stream = committed events ++ outstanding.toList ∧
        Accounts j (Late sinks j events writes) outstanding p := by
  obtain ⟨inside,_⟩ := List.getElem?_eq_some_iff.mp stdout
  induction prints generalizing p with
  | start =>
    cases path
    refine ⟨none,rfl,?_⟩
    rcases begin_ with rfl | rfl <;> simp [Accounts, Late]
  | @other events writes stream event elsewhere prints ih =>
    obtain ⟨t,before,last⟩ := path_split path
    cases last with
    | cons step rest =>
      cases rest
      obtain ⟨outstanding,records,accounts⟩ :=
        ih (fun member => running (List.mem_append_left _ member)) before
      have here : event ≠ .started := by
        rintro rfl
        exact running (by simp)
      obtain ⟨outstanding',moved,next⟩ := accounts_other inside here elsewhere step accounts
      refine ⟨outstanding',?_,?_⟩
      · rw [records, committed_append, moved, List.append_assoc]
      · rw [late_snoc]
        exact next
  | @wrote events writes before after batch emissions raised prints ran ih =>
    obtain ⟨t,earlier,last⟩ := path_split path
    cases last with
    | cons step rest =>
      cases rest
      obtain ⟨outstanding,records,accounts⟩ :=
        ih (fun member => running (List.mem_append_left _ member)) earlier
      have still : committed (events ++ [.wrote j batch raised]) = committed events := by
        rw [committed_append]
        exact List.append_nil _
      rw [still, late_write]
      cases step with
      | @passed _ _ _ _ sink next at_ pass =>
        obtain ⟨timely,rfl⟩ := outstanding_before next accounts
        rw [if_neg (Nat.lt_irrefl j)] at records
        obtain rfl : stdoutSink = sink := Option.some.inj (stdout.symm.trans at_)
        have returned := required_passes rfl pass
        rcases writes_cases ran with ⟨_,flushed,added⟩ | ⟨raises,_⟩ | ⟨raises,_⟩
        · refine ⟨some batch,?_,?_⟩
          · rw [added, records, Option.toList_none, List.append_nil]
            rfl
          · simp [Accounts, timely, flushed]
        · exact absurd returned raises
        · exact absurd returned raises
      | @refused _ _ _ _ sink next at_ fail =>
        obtain ⟨timely,rfl⟩ := outstanding_before next accounts
        rw [if_neg (Nat.lt_irrefl j)] at records
        rcases writes_cases ran with ⟨none_,_⟩ | ⟨_,late,added⟩ | ⟨_,flushed,same⟩
        · exact absurd (Or.inl none_) fail
        · refine ⟨some batch,?_,?_⟩
          · rw [added, records, Option.toList_none, List.append_nil]
            rfl
          · simp [Accounts, late]
        · refine ⟨none,by rw [same, records],?_⟩
          simp [Accounts, timely, flushed]

theorem matched_iff {trace : List (Event ι)} (stdout : sinks[j]? = some stdoutSink)
    (path : Path (Follows sinks) .ended trace p) (halted : p.Over sinks)
    (prints : Prints j (sinceStart trace) writes stream) :
    Matched stream (sinceStart trace) ↔ Punctual sinks j trace writes := by
  obtain ⟨q,begin_,here⟩ := path_sinceStart path
  obtain ⟨outstanding,records,accounts⟩ :=
    records_balance stdout begin_ prints sinceStart_running here
  obtain ⟨inside,_⟩ := List.getElem?_eq_some_iff.mp stdout
  have matched : Matched stream (sinceStart trace) ↔ outstanding = none := by
    rw [Matched, records]
    cases outstanding with
    | none => exact iff_of_true (by simpa using List.Subperm.refl _) rfl
    | some batch =>
      refine iff_of_false (fun sub => ?_) (by simp)
      have few := sub.length_le
      simp only [Option.toList_some, List.length_append, List.length_singleton] at few
      omega
  have punctual : Punctual sinks j trace writes ↔ ¬ Late sinks j (sinceStart trace) writes ∧
      ∀ batch, p ≠ .delivering batch sinks.length := by
    constructor
    · rintro ⟨flushed,accepted,settled⟩
      refine ⟨?_,fun batch same => settled batch (same ▸ path)⟩
      rintro (⟨given,member,late⟩ | ⟨event,member,late⟩)
      · exact flushed given member late
      · exact accepted event member late
    · rintro ⟨timely,settled⟩
      refine ⟨fun given member late => timely (Or.inl ⟨given,member,late⟩),
        fun event member late => timely (Or.inr ⟨event,member,late⟩),?_⟩
      exact fun batch other => settled batch (path_unique path other)
  rw [matched, punctual]
  rcases halted with idle | rfl | ⟨batch,rfl⟩
  · obtain ⟨timely,rfl⟩ := (accounts_idle idle).mp accounts
    have between : ∀ batch, p ≠ .delivering batch sinks.length := by
      rintro batch rfl
      exact idle
    exact iff_of_true rfl ⟨timely,between⟩
  · have refused := not_congr (show outstanding ≠ none ↔ _ from accounts)
    simpa using refused
  · obtain ⟨_,rfl⟩ := accounts
    simp [inside]

theorem writes_exist (batch : Batch ι) (raised : Option Exc) (before : List (Record ι)) :
    ∃ emissions after, Writes batch emissions raised before after := by
  cases raised with
  | none =>
    refine ⟨fun _ => .done,before ++ recordsOf batch,?_⟩
    rw [Writes, write_eq]
    refine ends_mono (ends_emits (recordsOf batch) before _) (fun _ s all => ⟨rfl,all.2⟩) ?_
    rintro e s ⟨k,_,_,⟨⟨_,no⟩,_⟩ | ⟨⟨_,no⟩,_⟩⟩ <;> contradiction
  | some e =>
    refine ⟨fun _ => .refused e,before,?_⟩
    simp only [Writes, write, emit, ends_bind, ends_get, ends_set, ends_throw]
    exact ⟨trivial,trivial⟩

theorem prints_exist (j : Nat) (events : List (Event ι)) :
    ∃ writes stream, Prints j events writes stream := by
  induction events using List.reverseRecOn with
  | nil => exact ⟨[],[],.start⟩
  | append_singleton events event ih =>
    obtain ⟨writes,stream,prints⟩ := ih
    by_cases here : ∃ batch raised, event = .wrote j batch raised
    · obtain ⟨batch,raised,rfl⟩ := here
      obtain ⟨emissions,after,ran⟩ := writes_exist batch raised stream
      exact ⟨_,after,prints.wrote ran⟩
    · exact ⟨writes,stream,prints.other fun batch raised same => here ⟨batch,raised,same⟩⟩

theorem ends_run {cdc : Extension ι} {c : Consumer} {o : BatchOptions} {fuel : Nat} {w : World ι}
    {start : Int} (opened : c.opened = true) (some_ : c.sinks ≠ []) (h : Recorded c.sinks start w) :
    Ends (run cdc c o fuel) w (fun _ => Waiting c.sinks start)
      (Halted c.sinks c.retryPolicy start) := by
  refine ends_mono (ends_execution fuel h) (fun _ _ h => h) ?_
  rintro stop u (⟨_,closed | none_⟩ | halted)
  · simp [opened] at closed
  · exact absurd none_ some_
  · exact halted

/-- The commit records that a `StdoutSink` prints in an execution of `run` are matched by the
    commits of the execution if and only if no failure comes after one. -/
theorem commit_records_iff (cdc : Extension ι) (c : Consumer) (opened : c.opened = true) (j : Nat)
    (stdout : c.sinks[j]? = some stdoutSink) (log : SnapshotLog ι) (start : Int)
    (xs : List (Execution ι)) (x : Execution ι) :
    let w := World.restart (executions cdc c (World.initial log start) xs) x
    let exact_ : World ι → Prop := fun t =>
      (∃ writes stream, Prints j (sinceStart t.trace) writes stream) ∧
      ∀ writes stream, Prints j (sinceStart t.trace) writes stream →
        (Matched stream (sinceStart t.trace) ↔ Punctual c.sinks j t.trace writes)
    Ends (run cdc c x.options x.fuel) w (fun _ t => exact_ t)
      (fun stop t => stop = .crashed ∨ exact_ t) := by
  intro w exact_
  have some_ : c.sinks ≠ [] := by
    rintro none_
    rw [none_] at stdout
    contradiction
  obtain ⟨p,ledger⟩ := executions_recorded cdc c log start xs
  have ended : ∀ (p : Phase ι) (t : World ι), Ledger c.sinks start p t → p.Over c.sinks → exact_ t := by
    intro p t ledger halted
    exact ⟨prints_exist j _,fun writes stream prints => matched_iff stdout ledger.path halted prints⟩
  refine ends_mono (ends_run opened some_ ⟨p,ledger_restart x ledger⟩) ?_ ?_
  · rintro _ t ⟨p,idle,ledger⟩
    exact ended p t ledger (Or.inl idle)
  · rintro stop t ⟨p,ledger,crashed | complete⟩
    · exact Or.inl crashed
    · exact Or.inr (ended p t ledger complete.halted)

end

def archived : Consumer := { Consumer.orders with sinks := [stdoutSink,⟨"archive",true⟩] }

def archiveFull : Exc := .raised .otherException "archive is full"

def newest : Extension Int where
  windowEnd log _ _ _ := log.newest

def oneRow : SnapshotLog Int := (SnapshotLog.bare 0).land [7]

def refusedRun : Execution Int where
  options := {}
  fuel := 2
  script := [{},{},{},{},{},{},{ raises := some archiveFull }]

def refusedBatch : Batch Int := ⟨"orders","orders/1-1",1,1,[1],0,[7],some 1⟩

-- The run below is computed once, by the kernel.
attribute [local irreducible] CdcDelivery.run

theorem refusedRun_ends :
    Ends (run newest archived refusedRun.options refusedRun.fuel)
      (World.restart (World.initial oneRow 0) refusedRun) (fun _ _ => False)
      (fun stop t => stop = .raised archiveFull ∧ t.trace =
        [.started,.listened [⟨some 1,some 1,1,7⟩],.wrote 0 refusedBatch none,
          .wrote 1 refusedBatch (some archiveFull)]) := by
  have ran : raisesWith (run newest archived refusedRun.options refusedRun.fuel)
      (World.restart (World.initial oneRow 0) refusedRun) (fun stop t =>
        decide (stop = .raised archiveFull ∧ t.trace =
          [.started,.listened [⟨some 1,some 1,1,7⟩],.wrote 0 refusedBatch none,
            .wrote 1 refusedBatch (some archiveFull)])) = true := by decide +kernel
  exact ends_mono (ends_raisesWith ran) (fun _ _ no => no) fun _ _ check => of_decide_eq_true check

/-- The batch that the archive refused has a commit record and no commit. -/
theorem refused_batch_recorded :
    Ends (run newest archived refusedRun.options refusedRun.fuel)
      (World.restart (World.initial oneRow 0) refusedRun) (fun _ _ => False)
      (fun stop t => stop = .raised archiveFull ∧ ∃ writes stream,
        Prints 0 (sinceStart t.trace) writes stream ∧ commitRecords stream = [refusedBatch] ∧
          ¬ Matched stream (sinceStart t.trace)) := by
  apply ends_mono refusedRun_ends (fun _ _ no => no)
  rintro stop t ⟨raised,trace⟩
  have events : sinceStart t.trace = [] ++ [.listened [⟨some 1,some 1,1,7⟩]] ++
      [.wrote 0 refusedBatch none] ++ [.wrote 1 refusedBatch (some archiveFull)] := by
    rw [trace]
    rfl
  have ran : Writes refusedBatch (fun _ => .done) none [] (recordsOf refusedBatch) := by
    change _ ∧ _
    exact ⟨rfl,rfl⟩
  have prints : Prints 0 (sinceStart t.trace) [(refusedBatch,fun _ => .done)]
      (recordsOf refusedBatch) := by
    rw [events]
    have before : Prints 0 ([] ++ [(.listened [⟨some 1,some 1,1,7⟩] : Event Int)]) [] [] :=
      Prints.start.other fun _ _ no => by cases no
    exact (before.wrote ran).other fun _ _ no => by cases no
  refine ⟨raised,_,_,prints,commitRecords_recordsOf _,?_⟩
  intro matched
  have few := matched.length_le
  rw [commitRecords_recordsOf, events] at few
  exact absurd few (by decide)

theorem commit_records_archived :
    let w := World.restart (World.initial oneRow 0) refusedRun
    let exact_ : World Int → Prop := fun t =>
      (∃ writes stream, Prints 0 (sinceStart t.trace) writes stream) ∧
      ∀ writes stream, Prints 0 (sinceStart t.trace) writes stream →
        (Matched stream (sinceStart t.trace) ↔ Punctual archived.sinks 0 t.trace writes)
    Ends (run newest archived refusedRun.options refusedRun.fuel) w (fun _ t => exact_ t)
      (fun stop t => stop = .crashed ∨ exact_ t) :=
  commit_records_iff newest archived rfl 0 rfl oneRow 0 [] refusedRun

end CdcCommitRecords
