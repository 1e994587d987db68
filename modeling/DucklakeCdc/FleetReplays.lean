import DucklakeCdc.BatchIds
import DucklakeCdc.IdempotentSinks

/-!
The batches of a fleet, taken again. Whichever process wrote a batch and whenever, reading
its window makes it again (`_ConsumerBase.read`), and its `batch_id` tells what is in it:
a store that keeps the items of a batch under its id needs no key in the items.
-/
namespace CdcFleet
open Programs Interleavings CdcBatch CdcRetry CdcLoop KeyedStores
variable {π ι : Type}

def again (b : Batch ι) (connection : Option Nat) (now : Int) : Batch ι :=
  { b with connection, receivedAt := now }

/-- The log still has what `b` was built of. -/
structure Replays (name : String) (log : SnapshotLog ι) (b : Batch ι) : Prop where
  below : b.endSnapshot ≤ log.newest
  built : ∀ connection now,
    buildBatch name connection now (windowRows log (b.startSnapshot - 1) b.endSnapshot) =
      some (again b connection now)

section
variable {name : String} {log : SnapshotLog ι} {b b' : Batch ι}

theorem windowRows_land (items : List ι) {lo hi : Int} (below : hi ≤ log.newest) :
    windowRows (log.land items) lo hi = windowRows log lo hi := by
  have none_new : (items.map (log.newest + 1, ·)).filter (SnapshotLog.inWindow lo hi) = [] := by
    rw [List.filter_eq_nil_iff]
    intro row member
    obtain ⟨item,_,rfl⟩ := List.mem_map.mp member
    simp only [SnapshotLog.inWindow_iff]
    omega
  rw [windowRows, windowRows, SnapshotLog.land, List.filter_append, none_new, List.append_nil]

theorem replays_land (items : List ι) (h : Replays name log b) : Replays name (log.land items) b where
  below := by
    have := h.below
    simp only [SnapshotLog.land]
    omega
  built := by
    rw [windowRows_land items h.below]
    exact h.built

theorem replays_grown {log' : SnapshotLog ι} (h : Replays name log b)
    (grown : log' = log ∨ ∃ items, log' = log.land items) : Replays name log' b := by
  rcases grown with rfl | ⟨items,rfl⟩
  · exact h
  · exact replays_land items h

theorem build_again {connection : Option Nat} {now : Int} {rows : List (Row ι)}
    (built : buildBatch name connection now rows = some b) (connection' : Option Nat) (now' : Int) :
    buildBatch name connection' now' rows = some (again b connection' now') := by
  simp only [buildBatch, Option.bind_eq_bind, Option.bind_eq_some_iff] at built ⊢
  obtain ⟨lo,lowest,hi,highest,made⟩ := built
  refine ⟨lo,lowest,hi,highest,?_⟩
  cases made
  rfl

theorem replays_of_rows {connection : Option Nat} {now lo hi : Int} (below : hi ≤ log.newest)
    (built : buildBatch name connection now (windowRows log lo hi) = some b) :
    Replays name log b := by
  obtain ⟨start,stop,_⟩ := built_of_windowRows built
  obtain rfl : lo = b.startSnapshot - 1 := by omega
  subst hi
  exact ⟨below,build_again built⟩

theorem name_of_build {connection : Option Nat} {now : Int} {rows : List (Row ι)}
    (built : buildBatch name connection now rows = some b) : b.consumerName = name := by
  simp only [buildBatch, Option.bind_eq_bind, Option.bind_eq_some_iff] at built
  obtain ⟨lo,_,hi,_,made⟩ := built
  cases made
  rfl

theorem replays_id (h : Replays name log b) :
    b.batchId = deriveBatchId name b.startSnapshot b.endSnapshot := by
  have id_ := batchId_of_build (h.built none 0)
  rw [name_of_build (h.built none 0)] at id_
  exact id_

theorem replays_same (h : Replays name log b) (h' : Replays name log b')
    (same : b.batchId = b'.batchId) : b' = again b b'.connection b'.receivedAt := by
  rw [replays_id h, replays_id h'] at same
  obtain ⟨_,starts,stops⟩ := deriveBatchId_injective same
  have built := h.built b'.connection b'.receivedAt
  rw [starts, stops, h'.built] at built
  exact Option.some.inj built

end

section
variable [DecidableEq π] {crew : Crew π} {start : Int} {p q : π} {trace : List (π × Event ι)}
  {a : Account π ι} {l : Process ι} {done : List (Event ι) × Account π ι × Process ι}

def Lasting (crew : Crew π) (trace : List (π × Event ι)) (a : Account π ι) : Prop :=
  ∀ p i b raised, (p,Event.wrote i b raised) ∈ trace → Replays crew.name a.log b

def Offering (crew : Crew π) (_ : π) (_ : List (π × Event ι)) (a : Account π ι) (l : Process ι) :
    Prop :=
  ∀ connection now b, l.inHand crew.name connection now = some b → Replays crew.name a.log b

theorem lasting_moved (lasting : Lasting crew trace a) (offering : Offering crew p trace a l)
    (moved : Moved crew p a l done) :
    Lasting crew (trace ++ done.1.map (p,·)) done.2.1 := by
  intro p' i b raised member
  have grown := moved_log moved
  rcases List.mem_append.mp member with old | new
  · exact replays_grown (lasting p' i b raised old) grown
  · obtain ⟨event,inside,same⟩ := List.mem_map.mp new
    obtain ⟨_,rfl⟩ := Prod.mk.inj same
    cases moved with
    | landed items => simp at inside
    | released => simp at inside
    | started => simp at inside
    | listened hi idle below => simp at inside
    | @wrote event batch phase connection now hand follows wrote still keeps =>
      obtain rfl := List.mem_singleton.mp inside
      obtain rfl := wrote i b raised rfl
      exact offering connection now b hand
    | committed takes raised at_ follows keeps allowed => simp at inside

theorem offering_moved (offering : Offering crew p trace a l) (moved : Moved crew p a l done) :
    Offering crew p (trace ++ done.1.map (p,·)) done.2.1 done.2.2 := by
  intro connection now b hand
  have grown := moved_log moved
  cases moved with
  | landed items => exact replays_grown (offering connection now b hand) grown
  | released => exact offering connection now b hand
  | started => simp [Process.inHand, buildBatch] at hand
  | listened hi idle below => exact replays_of_rows below hand
  | @wrote event batch phase connection' now' hand' follows wrote still keeps =>
    rcases keeps with rfl | ⟨i,rfl⟩
    · simp [Process.inHand] at hand
    · obtain rfl := Option.some.inj hand
      exact offering connection' now' batch hand'
  | @committed batch phase takes raised at_ follows keeps allowed =>
    rcases keeps with rfl | rfl
    · exact offering connection now b hand
    · simp [Process.inHand] at hand

theorem kept_lasting : Kept (does crew) (Lasting (ι := ι) crew) (Offering crew) where
  own _ _ _ _ _ _ lasting offering moves :=
    ⟨lasting_moved lasting offering (does_moved moves),offering_moved offering (does_moved moves)⟩
  others _ _ _ _ _ _ _ _ _ _ _ offering moves connection now b hand :=
    replays_grown (offering connection now b hand) (moved_log (does_moved moves))

theorem fleet_lasting (crew : Crew π) (log : SnapshotLog ι) (start : Int)
    (turns : List (π × Move ι)) :
    let s := run (does crew) (Fleet.initial log start) turns
    Lasting crew s.trace s.shared := by
  have initial : Holds (Lasting (ι := ι) crew) (Offering crew) (Fleet.initial log start) := {
    common := fun _ _ _ _ none_ => nomatch none_
    each := by
      intro p connection now b hand
      simp [Fleet.initial, Process.inHand] at hand }
  exact (run_keeps kept_lasting turns initial).common

end

section
variable {b : Batch ι} {c : Consumer} {w : World ι}

theorem ambient_replays (name : String) : Ambient (fun w : World ι => Replays name w.log b) :=
  ambient_of (fun _ items h => replays_land items h) (fun _ _ _ _ _ _ h => h)

/-- The next call of the script raises, or there is none. -/
def Unanswered (script : List (Act ι)) : Prop :=
  ∀ act rest, script = act :: rest → act.raises ≠ none

theorem unanswered_nil : Unanswered ([] : List (Act ι)) :=
  fun _ _ none_ => nomatch none_

theorem unanswered_cons {act : Act ι} {rest : List (Act ι)} {e : Exc}
    (raises : act.raises = some e) : Unanswered (act :: rest) := by
  intro act' rest' next
  cases next
  simp [raises]

theorem unanswered_before {first script : List (Act ι)}
    (before : script = first ∨ Unanswered first) (unanswered : Unanswered script) :
    Unanswered first := by
  rcases before with rfl | no
  · exact unanswered
  · exact no

/-- Reading the window of a batch that the log has makes the batch again. An open consumer
    whose call is answered raises nothing, but for `max_attempts < 1`. -/
theorem ends_read (cdc : Extension ι) (k : Int) (retry : Option RetryPolicy)
    (h : Replays c.name w.log b) :
    Ends (read cdc c k (some b.startSnapshot) (some b.endSnapshot) retry) w
      (fun given u => ∃ now, given = some (again b (some u.db.live) now))
      (fun e _ => c.opened = true → e = .raised maxAttemptsError ∨ Unanswered w.script) := by
  unfold CdcLoop.read
  rw [fetch, ends_bind, requireOpen, ends_ite]
  refine ⟨fun _ => ?_,fun closed opened => absurd opened closed⟩
  rw [ends_pure, ends_bind]
  have log_ : Ambient fun w : World ι => Replays c.name w.log b := ambient_replays c.name
  have op : ∀ u : World ι,
      Replays c.name u.log b ∧ (u.script = w.script ∨ Unanswered w.script) →
      Ends (readOp cdc c k (some b.startSnapshot) (some b.endSnapshot)) u
        (fun rows v => Replays c.name v.log b ∧
          rows = windowRows v.log (b.startSnapshot - 1) b.endSnapshot)
        (fun e v => (e = .raised maxAttemptsError ∨ Unanswered w.script) ∧
          Replays c.name v.log b ∧ (v.script = w.script ∨ Unanswered w.script)) := by
    rintro u ⟨here,before⟩
    rw [readOp, ends_bind]
    apply ends_step
    · intro ended
      have unanswered := unanswered_before before (by rw [ended]; exact unanswered_nil)
      exact ⟨Or.inr unanswered,here,Or.inr unanswered⟩
    · intro act rest next
      have met := log_.meet u rest act next here
      cases raises : act.raises with
      | some e =>
        have unanswered := unanswered_before before (by rw [next]; exact unanswered_cons raises)
        exact ⟨Or.inr unanswered,met,Or.inr unanswered⟩
      | none => exact ⟨met,rfl⟩
  have tried : Ends ((c.effectiveRetry retry).run sleep
      (readOp cdc c k (some b.startSnapshot) (some b.endSnapshot))) w
      (fun rows v => Replays c.name v.log b ∧
        rows = windowRows v.log (b.startSnapshot - 1) b.endSnapshot)
      (fun e _ => e = .raised maxAttemptsError ∨ Unanswered w.script) := by
    refine ends_policy_err _ op ?_ (fun _ _ => Or.inl rfl) w ⟨h,Or.inl rfl⟩
    exact fun _ _ hu => ⟨hu.1,hu.2⟩
  refine ends_mono tried ?_ (fun _ _ raised _ => raised)
  rintro rows u ⟨here,rfl⟩
  have built := here.built (some u.db.live) u.wall
  rw [ends_ite]
  refine ⟨fun empty => ?_,fun _ => ?_⟩
  · rw [List.isEmpty_iff.mp empty] at built
    cases built
  · rw [ends_bind, buildRows, ends_bind, ends_get, built]
    exact ⟨_,rfl⟩

end

/-- What a process may file at its sink at `i`: the items of a batch under its id, in a write
    that returns; in one that raises it may have done so before. -/
def Files (i : Nat) : Event ι → List (String × List ι) → Prop
  | .wrote j b none, filed => filed = if j = i then [(b.batchId,b.items)] else []
  | .wrote j b (some _), filed => filed = [] ∨ j = i ∧ filed = [(b.batchId,b.items)]
  | _, filed => filed = []

section
variable {i : Nat} {event : Event ι} {filed : List (String × List ι)} {document : String × List ι}

theorem files_written (files : Files i event filed) (member : document ∈ filed) :
    ∃ b raised, event = .wrote i b raised ∧ document = (b.batchId,b.items) := by
  unfold Files at files
  split at files
  · next j b =>
    subst filed
    split at member
    · next same =>
      subst j
      exact ⟨b,none,rfl,List.mem_singleton.mp member⟩
    · cases member
  · next j b e =>
    rcases files with rfl | ⟨rfl,rfl⟩
    · cases member
    · exact ⟨b,some e,rfl,List.mem_singleton.mp member⟩
  · subst filed
    cases member

end

section
variable [DecidableEq π]

/-- A batch that any process of a fleet has written can be had again, by any process and at
    any later time, by reading its window; and two writes of batches with one id, of
    whichever processes, were of the same batch. -/
theorem batches_replay (crew : Crew π) (log : SnapshotLog ι) (start : Int)
    (turns : List (π × Move ι)) :
    let s := run (does crew) (Fleet.initial log start) turns
    (∀ p i b raised, (p,.wrote i b raised) ∈ s.trace →
      ∀ (cdc : Extension ι) (c : Consumer) (w : World ι) k retry,
        c.name = crew.name → w.log = s.shared.log →
        Ends (CdcLoop.read cdc c k (some b.startSnapshot) (some b.endSnapshot) retry) w
          (fun given u => ∃ now, given = some (again b (some u.db.live) now))
          (fun e _ => c.opened = true → e = .raised maxAttemptsError ∨ Unanswered w.script)) ∧
    ∀ p i b raised q j b' raised', (p,.wrote i b raised) ∈ s.trace →
      (q,.wrote j b' raised') ∈ s.trace → b.batchId = b'.batchId →
      b' = again b b'.connection b'.receivedAt := by
  intro s
  have lasting := fleet_lasting crew log start turns
  refine ⟨?_,?_⟩
  · intro p i b raised wrote cdc c w k retry named log_
    have here := lasting p i b raised wrote
    rw [← named, ← log_] at here
    exact ends_read cdc k retry here
  · intro p i b raised q j b' raised' wrote wrote' same
    exact replays_same (lasting p i b raised wrote) (lasting q j b' raised' wrote') same

/-- A store behind a required sink of each process that keeps the items of a batch under its
    `batch_id` needs no key in the items: each row the cursor has passed is in a document,
    and a document is all rows of the window that its id names. -/
theorem batch_store_exact (crew : Crew π) (log : SnapshotLog ι) (start : Int)
    (turns : List (π × Move ι)) (i : Nat) (filed : List (String × List ι))
    (required : ∀ p, ∃ sink, (crew.sinks p)[i]? = some sink ∧ sink.required = true) :
    let s := run (does crew) (Fleet.initial log start) turns
    Fed (Files i) (events s.trace) filed →
      (∀ row ∈ s.shared.log.rows, start < row.1 → row.1 ≤ s.shared.cursor →
        ∃ k document, store Prod.fst filed k = some document ∧ row.2 ∈ document.2) ∧
      ∀ k document, store Prod.fst filed k = some document →
        ∃ lo hi, start ≤ lo ∧ lo < hi ∧ hi ≤ s.shared.log.newest ∧
          k = deriveBatchId crew.name (lo + 1) hi ∧
          document = (k,s.shared.log.between lo hi) := by
  intro s fed
  have sound := fleet_sound crew log start turns
  have lasting := fleet_lasting crew log start turns
  have written : ∀ document ∈ filed, ∃ p b raised, (p,.wrote i b raised) ∈ s.trace ∧
      document = (b.batchId,b.items) := by
    intro document member
    obtain ⟨event,happened,piece,files,inside⟩ := fed_put fed member
    obtain ⟨b,raised,rfl,same⟩ := files_written files inside
    obtain ⟨⟨p,_⟩,entry,rfl⟩ := List.mem_map.mp happened
    exact ⟨p,b,raised,entry,same⟩
  -- two documents under one id are of one window
  have apart : Set.InjOn Prod.fst {document | document ∈ filed} := by
    intro document member document' member' same
    obtain ⟨p,b,raised,wrote,rfl⟩ := written document member
    obtain ⟨q,b',raised',wrote',rfl⟩ := written document' member'
    have equal := replays_same (lasting p i b raised wrote) (lasting q i b' raised' wrote') same
    rw [equal]
    rfl
  refine ⟨?_,?_⟩
  · intro row member above below
    obtain ⟨b,returned,inside⟩ :=
      acknowledged_returned required (sound.covered row member above below)
    have there : (b.batchId,b.items) ∈ filed := by
      refine fed_mem fed returned fun piece files => ?_
      simp only [Files, if_true] at files
      simp [files]
    exact ⟨_,_,(store_eq_some_iff apart).mpr ⟨there,rfl⟩,inside⟩
  · rintro k document kept
    obtain ⟨member,rfl⟩ := (store_eq_some_iff apart).mp kept
    obtain ⟨p,b,raised,wrote,rfl⟩ := written document member
    obtain ⟨c,from_,window⟩ := sound.written p i b raised wrote
    refine ⟨c,b.endSnapshot,from_,window.forward,window.below,?_,?_⟩
    · rw [← window.start]
      exact replays_id (lasting p i b raised wrote)
    · rw [← window.items]

end

/-- A process dies after its write of two snapshots returned; the next one takes them one by
    one. Both windows are on file. -/
def shorterWindows : List (Bool × Move String) :=
  [(false,.land ["a"]),(false,.land ["b"]),(false,.start),(false,.listen 2),
    (false,.write none 0 none),(true,.start),(true,.listen 1),(true,.write none 1 none),
    (true,.commit true none)]

theorem shorter_windows_on_file :
    let s := run (does (pair false)) (Fleet.initial (.bare 0) 0) shorterWindows
    let filed := [("orders/1-2",["a","b"]),("orders/1-1",["a"])]
    (∀ row ∈ s.shared.log.rows, 0 < row.1 → row.1 ≤ s.shared.cursor →
      ∃ k document, store Prod.fst filed k = some document ∧ row.2 ∈ document.2) ∧
    ∀ k document, store Prod.fst filed k = some document →
      ∃ lo hi, 0 ≤ lo ∧ lo < hi ∧ hi ≤ s.shared.log.newest ∧
        k = deriveBatchId (pair false).name (lo + 1) hi ∧
        document = (k,s.shared.log.between lo hi) := by
  refine batch_store_exact (pair false) (.bare 0) 0 shorterWindows 0 _ (fun _ => ⟨_,rfl,rfl⟩) ?_
  have quiet {event : Event String} {trace : List (Event String)}
      {filed : List (String × List String)} (files : Files 0 event [])
      (rest : Fed (Files 0) trace filed) : Fed (Files 0) (event :: trace) filed :=
    Fed.cons files rest
  refine quiet (by exact rfl) (quiet (by exact rfl) (quiet (by exact rfl) (quiet (by exact rfl) ?_)))
  refine Fed.cons (?_ : Files 0 _ [("orders/1-2",["a","b"])]) (quiet (by exact rfl)
    (quiet (by exact rfl) (Fed.cons (?_ : Files 0 _ [("orders/1-1",["a"])])
      (quiet (by exact rfl) .nil))))
  · rfl
  · rfl

end CdcFleet
