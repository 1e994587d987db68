import DucklakeCdc.Fleets

/-!
What the lease is for: where the extension takes a commit only from the connection that
holds it, several processes on one consumer commit like a single one. Each commit that
moves the cursor is of the window right after it, whoever wrote it and in whatever order
the processes listen, write, die and take the lease from one another.
-/
namespace CdcFleet
open Histories Interleavings CdcBatch CdcRetry CdcLoop DeliveryProtocol CdcDelivery
variable {π ι : Type} [DecidableEq π]

/-- The commits that moved the cursor, as one chain of windows of the log. -/
structure Chained (crew : Crew π) (start : Int) (trace : List (π × Event ι)) (a : Account π ι) :
    Prop where
  sound : Sound crew start trace a
  chain : Contiguous start (advances (events trace)) a.cursor
  whole : ∀ b ∈ advances (events trace), IsWindow a.log (b.startSnapshot - 1) b

/-- The batch of the process that holds the lease starts right after the cursor, or its
    commit has already moved it. -/
structure Leased (crew : Crew π) (start : Int) (p : π) (trace : List (π × Event ι))
    (a : Account π ι) (l : Process ι) : Prop where
  working : Working crew start p trace a l
  due : a.holder = some p → ∀ connection now b, l.inHand crew.name connection now = some b →
    a.cursor + 1 = b.startSnapshot ∨ a.cursor = b.endSnapshot

section
variable {crew : Crew π} {start : Int} {trace : List (π × Event ι)} {p q : π} {a : Account π ι}
  {l : Process ι} {done : List (Event ι) × Account π ι × Process ι}

theorem chained_still (h : Chained crew start trace a) {a' : Account π ι}
    (sound : Sound crew start (trace ++ done.1.map (p,·)) a') (same : a'.cursor = a.cursor)
    (still : advances done.1 = []) (grown : a'.log = a.log ∨ ∃ items, a'.log = a.log.land items) :
    Chained crew start (trace ++ done.1.map (p,·)) a' := by
  have kept : advances (events (trace ++ done.1.map (p,·))) = advances (events trace) := by
    rw [events_append, advances, List.filterMap_append]
    exact (congrArg _ still).trans (List.append_nil _)
  refine ⟨sound,?_,?_⟩
  · rw [kept, same]
    exact h.chain
  · rw [kept]
    exact fun b member => isWindow_grown (h.whole b member) grown

/-- A commit is of the batch in hand of the lease's holder, so it goes on with the chain. -/
theorem chained_moved (fenced : crew.fenced = true) (h : Chained crew start trace a)
    (leased : Leased crew start p trace a l) (moved : Moved crew p a l done) :
    Chained crew start (trace ++ done.1.map (p,·)) done.2.1 := by
  have sound := sound_moved h.sound leased.working moved
  have grown := moved_log moved
  cases moved with
  | landed items => exact chained_still h sound rfl rfl grown
  | released => exact chained_still h sound rfl rfl grown
  | started => exact chained_still h sound rfl rfl grown
  | listened hi idle below => exact chained_still h sound rfl rfl grown
  | wrote connection now hand follows wrote still keeps => exact chained_still h sound rfl still grown
  | @committed b phase takes raised at_ follows keeps allowed =>
    cases takes with
    | false => exact chained_still h sound rfl rfl grown
    | true =>
      have inHand : l.inHand crew.name none 0 = some b := by rw [Process.inHand, at_]
      have due := leased.due (allowed fenced rfl) none 0 b inHand
      by_cases same : b.endSnapshot = a.cursor
      · apply chained_still h sound same _ grown
        simp [same, advances_commit]
      · have added : advances (events (trace ++ [Event.commitCalled b true raised].map (p,·))) =
            advances (events trace) ++ [b] := by
          rw [events_append, advances_snoc, advances_commit, if_pos rfl]
        obtain ⟨c,_,window,_⟩ := leased.working.ready none 0 b inHand
        have before : c = b.startSnapshot - 1 := by
          have := window.start
          omega
        have moves : (true && b.endSnapshot != a.cursor) = true := by simpa using same
        rw [moves] at sound ⊢
        refine ⟨sound,?_,?_⟩
        · rw [added]
          refine contiguous_snoc h.chain ?_
          rcases due with right | gone
          · exact right.symm
          · exact absurd gone.symm same
        · rw [added]
          intro b' member
          rcases List.mem_append.mp member with old | new
          · exact h.whole b' old
          · rw [List.mem_singleton.mp new, ← before]
            exact window

theorem leased_moved (sound : Sound crew start trace a) (leased : Leased crew start p trace a l)
    (moved : Moved crew p a l done) :
    Leased crew start p (trace ++ done.1.map (p,·)) done.2.1 done.2.2 := by
  refine ⟨working_moved sound leased.working moved,?_⟩
  cases moved with
  | landed items => exact leased.due
  | released => exact fun no => nomatch no
  | started =>
    intro _ connection now b hand
    simp [Process.inHand, buildBatch] at hand
  | listened hi idle below =>
    intro _ connection now b hand
    exact Or.inl (isWindow_of_rows below hand).start.symm
  | @wrote event batch phase connection now hand follows wrote still keeps =>
    intro holds connection' now' b hand'
    rcases keeps with rfl | ⟨i,rfl⟩
    · simp [Process.inHand] at hand'
    · obtain rfl := Option.some.inj hand'
      exact leased.due holds connection now batch hand
  | @committed batch phase takes raised at_ follows keeps allowed =>
    intro holds connection now b hand
    rcases keeps with rfl | rfl
    · have same : b = batch := by
        rw [Process.inHand, at_] at hand
        exact (Option.some.inj hand).symm
      subst b
      cases takes with
      | true => exact Or.inr rfl
      | false => exact leased.due holds connection now batch hand
    · simp [Process.inHand] at hand

/-- Others leave the holder's batch due: their listens take the lease from it, and their
    commits are refused. -/
theorem leased_others (fenced : crew.fenced = true) (leased : Leased crew start q trace a l)
    (other : q ≠ p) {l' : Process ι} (moved : Moved crew p a l' done) :
    Leased crew start q (trace ++ done.1.map (p,·)) done.2.1 l := by
  refine ⟨working_others leased.working other moved,?_⟩
  cases moved with
  | landed items => exact leased.due
  | released => exact fun no => nomatch no
  | started => exact leased.due
  | listened hi idle below => exact fun taken => absurd (Option.some.inj taken).symm other
  | wrote connection now hand follows wrote still keeps => exact leased.due
  | committed takes raised at_ follows keeps allowed =>
    cases takes with
    | false => exact leased.due
    | true =>
      intro holds
      exact absurd (Option.some.inj ((holds.symm.trans (allowed fenced rfl)))) other

theorem fenced_kept (fenced : crew.fenced = true) :
    Kept (does crew) (Chained (ι := ι) crew start) (Leased crew start) where
  own _ _ _ _ _ _ chained leased moves :=
    ⟨chained_moved fenced chained leased (does_moved moves),
      leased_moved chained.sound leased (does_moved moves)⟩
  others _ _ _ _ _ _ _ _ other _ _ leased moves :=
    leased_others fenced leased other (does_moved moves)

end

theorem contiguous_perm {log : SnapshotLog ι} {start stop : Int} {bs : List (Batch ι)}
    (chain : Contiguous start bs stop) (whole : ∀ b ∈ bs, IsWindow log (b.startSnapshot - 1) b) :
    start ≤ stop ∧ (bs.flatMap Batch.items).Perm (log.between start stop) := by
  induction bs generalizing start with
  | nil =>
    obtain rfl : start = stop := chain
    exact ⟨Int.le_refl _,by rw [SnapshotLog.between_self, List.flatMap_nil]⟩
  | cons b rest ih =>
    obtain ⟨first,others⟩ := chain
    have window := whole b List.mem_cons_self
    rw [first, Int.add_sub_cancel] at window
    obtain ⟨below,rows⟩ := ih others fun b member => whole b (List.mem_cons_of_mem _ member)
    refine ⟨window.forward.le.trans below,?_⟩
    rw [List.flatMap_cons, window.items]
    exact (rows.append_left _).trans (SnapshotLog.between_split log window.forward.le below)

/-- Where the lease is enforced, the commits of all processes that moved the cursor are
    windows that follow one another without gap or overlap from the first position to the
    cursor, each forward and with exactly the rows of its snapshots, and together they are of
    each row of the log in between once: no process commits a window a second time, moves the
    cursor back, or past what it has not listened to. -/
theorem fenced_commits_once (crew : Crew π) (fenced : crew.fenced = true) (log : SnapshotLog ι)
    (start : Int) (turns : List (π × Move ι)) :
    let s := run (does crew) (Fleet.initial log start) turns
    let commits := advances (events s.trace)
    Contiguous start commits s.shared.cursor ∧
      (∀ b ∈ commits, IsWindow s.shared.log (b.startSnapshot - 1) b) ∧
      (commits.flatMap Batch.items).Perm (s.shared.log.between start s.shared.cursor) := by
  have initial : Holds (Chained (ι := ι) crew start) (Leased crew start)
      (Fleet.initial log start) := by
    refine ⟨⟨sound_initial,rfl,fun _ none_ => nomatch none_⟩,fun p => ⟨working_initial,?_⟩⟩
    exact fun no => nomatch no
  have chained := (run_keeps (fenced_kept fenced) turns initial).common
  exact ⟨chained.chain,chained.whole,(contiguous_perm chained.chain chained.whole).2⟩

def pair (fenced : Bool) : Crew Bool where
  name := "orders"
  sinks _ := [⟨"out",true⟩]
  fenced := fenced

/-- The first process listens and writes, the second takes the lease, listens to more and
    commits it; then the first comes to its commit. -/
def handover : List (Bool × Move String) :=
  [(false,.land ["a"]),(false,.start),(true,.start),(false,.listen 1),(false,.write (some 1) 0 none),
    (true,.land ["b"]),(true,.listen 2),(true,.write (some 2) 0 none),(true,.commit true none),
    (false,.commit true none)]

theorem handover_commits_once :
    let s := run (does (pair true)) (Fleet.initial (.bare 0) 0) handover
    let commits := advances (events s.trace)
    s.shared.cursor = 2 ∧ Contiguous 0 commits s.shared.cursor ∧
      (∀ b ∈ commits, IsWindow s.shared.log (b.startSnapshot - 1) b) ∧
      (commits.flatMap Batch.items).Perm (s.shared.log.between 0 s.shared.cursor) :=
  ⟨rfl,fenced_commits_once (pair true) rfl (.bare 0) 0 handover⟩

example : (run (does (pair false)) (Fleet.initial (.bare 0) 0) handover).shared.cursor = 1 := rfl

end CdcFleet
