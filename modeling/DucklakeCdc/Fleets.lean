import DucklakeCdc.AppHosting
import DucklakeCdc.Interleavings
import DucklakeCdc.SinkDelivery

/-!
Several processes that run one consumer (`_ConsumerBase.run`): each with sinks of its own,
all on the one durable cursor, in any interleaving of their listens, writes and commits.
Each may die and start again at any moment, the lease may go from one to the other, and a
commit may come from a process that lost it.
-/
namespace CdcFleet
open Histories Interleavings CdcBatch CdcRetry CdcLoop DeliveryProtocol CdcDelivery
variable {π ι : Type}

/-- The consumer in the database: its snapshots, its cursor, and whose connection holds the
    lease. -/
structure Account (π ι : Type) where
  log : SnapshotLog ι
  cursor : Int
  holder : Option π := none

structure Process (ι : Type) where
  phase : Phase ι := .ended
  heard : List (Row ι) := []

/-- `fenced` tells whether the extension refuses a commit on a connection without the lease
    (`CDC_BUSY`). -/
structure Crew (π : Type) where
  name : String
  sinks : π → List Sink
  fenced : Bool := false

/-- `release` is `cdc_consumer_force_release`; a commit that raises may have taken effect
    before. -/
inductive Move (ι : Type) where
  | land (items : List ι)
  | release
  | start
  | listen (wish : Int)
  | write (connection : Option Nat) (now : Int) (raised : Option Exc)
  | commit (took : Bool) (raised : Option Exc)

def Process.inHand (name : String) (connection : Option Nat) (now : Int) (l : Process ι) :
    Option (Batch ι) :=
  match l.phase with
  | .ready => buildBatch name connection now l.heard
  | .delivering batch _ => some batch
  | _ => none

section
variable [DecidableEq π] (crew : Crew π) (me : π)

def writes (connection : Option Nat) (now : Int) (raised : Option Exc) (a : Account π ι)
    (l : Process ι) : Option (List (Event ι) × Account π ι × Process ι) := do
  let batch ← l.inHand crew.name connection now
  let (event, phase) ← CdcApp.advance (crew.sinks me) l.phase (.write batch raised)
  return ([event], a, { l with phase := phase })

def commits (took : Bool) (raised : Option Exc) (a : Account π ι) (l : Process ι) :
    Option (List (Event ι) × Account π ι × Process ι) :=
  match l.phase with
  | .delivering batch _ =>
    let takes := raised.isNone || took
    if crew.fenced && takes && a.holder != some me then none
    else (CdcApp.advance (crew.sinks me) l.phase
        (.commit (takes && batch.endSnapshot != a.cursor) raised)).map fun (event, phase) =>
      ([event], { a with cursor := if takes then batch.endSnapshot else a.cursor },
        { l with phase := phase })
  | _ => none

/-- One step of `run` in process `me`, or of the world around it. The loop asks again when a
    listen brought nothing or its batch is done; here a process may also drop what it heard. -/
def does (a : Account π ι) (l : Process ι) :
    Move ι → Option (List (Event ι) × Account π ι × Process ι)
  | .land items =>
    some ([.landed (a.log.newest + 1) items], { a with log := a.log.land items }, l)
  | .release => some ([], { a with holder := none }, l)
  | .start => some ([.started], a, ⟨.ready,[]⟩)
  | .listen wish =>
    let rows := windowRows a.log a.cursor (min wish a.log.newest)
    if CdcApp.Phase.isIdle l.phase then
      some ([.listened rows], { a with holder := some me }, ⟨.ready,rows⟩)
    else none
  | .write connection now raised => writes crew me connection now raised a l
  | .commit took raised => commits crew me took raised a l

end

abbrev Fleet (π ι : Type) := State π (Account π ι) (Process ι) (Event ι)

def Fleet.initial (log : SnapshotLog ι) (start : Int) : Fleet π ι where
  shared := { log := log, cursor := start }
  locals _ := {}

def events (trace : List (π × Event ι)) : List (Event ι) := trace.map Prod.snd

@[simp] theorem events_append (p : π) (trace : List (π × Event ι)) (done : List (Event ι)) :
    events (trace ++ done.map (p,·)) = events trace ++ done := by
  simp [events, Function.comp_def]

inductive Moved [DecidableEq π] (crew : Crew π) (me : π) (a : Account π ι) (l : Process ι) :
    List (Event ι) × Account π ι × Process ι → Prop where
  | landed (items : List ι) : Moved crew me a l
      ([.landed (a.log.newest + 1) items],{ a with log := a.log.land items },l)
  | released : Moved crew me a l ([],{ a with holder := none },l)
  | started : Moved crew me a l ([.started],a,⟨.ready,[]⟩)
  | listened (hi : Int) (idle : l.phase.Idle) (below : hi ≤ a.log.newest) : Moved crew me a l
      ([.listened (windowRows a.log a.cursor hi)],{ a with holder := some me },
        ⟨.ready,windowRows a.log a.cursor hi⟩)
  | wrote {event : Event ι} {batch : Batch ι} {phase : Phase ι} (connection : Option Nat) (now : Int)
      (hand : l.inHand crew.name connection now = some batch)
      (follows : Follows (crew.sinks me) l.phase event phase)
      (wrote : ∀ i b raised, event = .wrote i b raised → b = batch) (still : advances [event] = [])
      (keeps : phase = .ended ∨ ∃ i, phase = .delivering batch i) :
      Moved crew me a l ([event],a,{ l with phase := phase })
  | committed {batch : Batch ι} {phase : Phase ι} (takes : Bool) (raised : Option Exc)
      (at_ : l.phase = .delivering batch (crew.sinks me).length)
      (follows : Follows (crew.sinks me) l.phase
        (.commitCalled batch (takes && batch.endSnapshot != a.cursor) raised) phase)
      (keeps : phase = l.phase ∨ phase = .settled batch)
      (allowed : crew.fenced = true → takes = true → a.holder = some me) :
      Moved crew me a l ([.commitCalled batch (takes && batch.endSnapshot != a.cursor) raised],
        { a with cursor := if takes then batch.endSnapshot else a.cursor },{ l with phase := phase })

section
variable [DecidableEq π] {crew : Crew π} {me : π} {a : Account π ι} {l : Process ι}
  {done : List (Event ι) × Account π ι × Process ι}

theorem writes_moved {connection : Option Nat} {now : Int} {raised : Option Exc}
    (h : writes crew me connection now raised a l = some done) : Moved crew me a l done := by
  simp only [writes, Option.bind_eq_bind, Option.bind_eq_some_iff] at h
  obtain ⟨batch,hand,⟨event,phase⟩,next,same⟩ := h
  cases same
  have follows := CdcApp.advance_follows next
  have wrote : ∀ b i, CdcApp.writes (crew.sinks me) b i raised = some (event,phase) → b = batch →
      (∀ i b raised, event = .wrote i b raised → b = batch) ∧ advances [event] = [] ∧
        (phase = .ended ∨ ∃ i, phase = .delivering batch i) := by
    rintro b i writing rfl
    obtain ⟨sink,_,same⟩ := Option.map_eq_some_iff.mp writing
    cases same
    refine ⟨fun _ _ _ same => (Event.wrote.inj same).2.1.symm,rfl,?_⟩
    split
    · exact Or.inr ⟨_,rfl⟩
    · exact Or.inl rfl
  have facts : ∃ b i, CdcApp.writes (crew.sinks me) b i raised = some (event,phase) ∧ b = batch := by
    cases at_ : l.phase with
    | ready =>
      rw [at_] at next
      exact ⟨_,_,next,rfl⟩
    | delivering b i =>
      rw [at_] at next
      rw [Process.inHand, at_] at hand
      exact ⟨_,_,next,Option.some.inj hand⟩
    | ended => simp [at_, CdcApp.advance] at next
    | settled b => simp [at_, CdcApp.advance] at next
  obtain ⟨b,i,writing,same⟩ := facts
  obtain ⟨own,still,keeps⟩ := wrote b i writing same
  exact Moved.wrote connection now hand follows own still keeps

theorem commits_moved {took : Bool} {raised : Option Exc}
    (h : commits crew me took raised a l = some done) : Moved crew me a l done := by
  unfold commits at h
  split at h
  · next batch i at_ =>
    dsimp only at h
    split at h
    · contradiction
    · next free =>
      obtain ⟨⟨event,phase⟩,next,same⟩ := Option.map_eq_some_iff.mp h
      cases same
      have follows := CdcApp.advance_follows next
      rw [at_, CdcApp.advance] at next
      split at next
      · next all =>
        subst i
        cases next
        refine Moved.committed _ raised at_ follows ?_ ?_
        · cases raised with
          | none => exact Or.inr rfl
          | some e => exact Or.inl at_.symm
        · intro fenced takes
          by_contra other
          exact free (by simp [fenced, takes, other])
      · contradiction
  · contradiction

theorem does_moved {m : Move ι} (h : does crew me a l m = some done) : Moved crew me a l done := by
  cases m with
  | land items => cases h; exact Moved.landed items
  | release => cases h; exact Moved.released
  | start => cases h; exact Moved.started
  | listen wish =>
    simp only [does] at h
    split at h
    · next idle =>
      cases h
      exact Moved.listened _ (CdcApp.isIdle_iff.mp idle) (Int.min_le_right _ _)
    · contradiction
  | write connection now raised => exact writes_moved h
  | commit took raised => exact commits_moved h

theorem moved_follows (h : Moved crew me a l done) :
    Path (Follows (crew.sinks me)) l.phase done.1 done.2.2.phase := by
  have one : ∀ {event : Event ι} {p q}, Follows (crew.sinks me) p event q →
      Path (Follows (crew.sinks me)) p [event] q :=
    fun follows => Path.cons follows (Path.nil _)
  cases h with
  | landed items => exact one Follows.landed
  | released => exact Path.nil _
  | started => exact one Follows.started
  | listened hi idle below => exact one (Follows.listened idle)
  | wrote connection now hand follows wrote still keeps => exact one follows
  | committed takes raised at_ follows keeps allowed => exact one follows

theorem moved_log (h : Moved crew me a l done) :
    done.2.1.log = a.log ∨ ∃ items, done.2.1.log = a.log.land items := by
  cases h with
  | landed items => exact Or.inr ⟨items,rfl⟩
  | _ => exact Or.inl rfl

end

/-- Some process had the row in a batch that each of its required sinks accepted, in one
    execution. -/
def Acknowledged [DecidableEq π] (crew : Crew π) (trace : List (π × Event ι)) (row : Int × ι) :
    Prop :=
  ∃ p b before, before <+: trace ∧ b.startSnapshot ≤ row.1 ∧ row.1 ≤ b.endSnapshot ∧
    row.2 ∈ b.items ∧ Accepted (crew.sinks p) (own p before) b

def Covered [DecidableEq π] (crew : Crew π) (start : Int) (trace : List (π × Event ι))
    (log : SnapshotLog ι) (n : Int) : Prop :=
  ∀ row ∈ log.rows, start < row.1 → row.1 ≤ n → Acknowledged crew trace row

section
variable [DecidableEq π] {crew : Crew π} {start n : Int} {trace : List (π × Event ι)}
  {log : SnapshotLog ι}

theorem acknowledged_append {row : Int × ι} (h : Acknowledged crew trace row)
    (more : List (π × Event ι)) : Acknowledged crew (trace ++ more) row := by
  obtain ⟨p,b,before,earlier,facts⟩ := h
  exact ⟨p,b,before,earlier.trans (List.prefix_append _ _),facts⟩

theorem covered_append (h : Covered crew start trace log n) (more : List (π × Event ι)) :
    Covered crew start (trace ++ more) log n :=
  fun row member above below => acknowledged_append (h row member above below) more

theorem covered_land (h : Covered crew start trace log n) (within : n = start ∨ n ≤ log.newest)
    (items : List ι) : Covered crew start trace (log.land items) n := by
  intro row member above below
  rcases List.mem_append.mp member with old | new
  · exact h row old above below
  · obtain ⟨item,_,rfl⟩ := List.mem_map.mp new
    dsimp only at above below
    omega

theorem covered_grown {log' : SnapshotLog ι} (h : Covered crew start trace log n)
    (within : n = start ∨ n ≤ log.newest) (more : List (π × Event ι))
    (grown : log' = log ∨ ∃ items, log' = log.land items) :
    Covered crew start (trace ++ more) log' n := by
  apply covered_append
  rcases grown with rfl | ⟨items,rfl⟩
  · exact h
  · exact covered_land h within items

def Ready (crew : Crew π) (start : Int) (trace : List (π × Event ι)) (log : SnapshotLog ι)
    (b : Batch ι) : Prop :=
  ∃ c, start ≤ c ∧ IsWindow log c b ∧ Covered crew start trace log c

theorem isWindow_grown {log' : SnapshotLog ι} {c : Int} {b : Batch ι} (h : IsWindow log c b)
    (grown : log' = log ∨ ∃ items, log' = log.land items) : IsWindow log' c b := by
  rcases grown with rfl | ⟨items,rfl⟩
  · exact h
  · exact isWindow_land items h

theorem ready_grown {log' : SnapshotLog ι} {b : Batch ι} (h : Ready crew start trace log b)
    (more : List (π × Event ι)) (grown : log' = log ∨ ∃ items, log' = log.land items) :
    Ready crew start (trace ++ more) log' b := by
  obtain ⟨c,from_,window,covered⟩ := h
  have within : c ≤ log.newest := (Int.le_of_lt window.forward).trans window.below
  exact ⟨c,from_,isWindow_grown window grown,covered_grown covered (Or.inr within) more grown⟩

theorem covered_window {b : Batch ι} {p : π} (h : Ready crew start trace log b)
    (accepted : Accepted (crew.sinks p) (own p trace) b) :
    Covered crew start trace log b.endSnapshot := by
  obtain ⟨c,_,window,covered⟩ := h
  intro row member above below
  by_cases old : row.1 ≤ c
  · exact covered row member above old
  · have first : b.startSnapshot ≤ row.1 := by rw [window.start]; omega
    refine ⟨p,b,trace,List.prefix_rfl,first,below,?_,accepted⟩
    rw [window.items]
    exact SnapshotLog.mem_between member (by omega) below

structure Sound (crew : Crew π) (start : Int) (trace : List (π × Event ι)) (a : Account π ι) :
    Prop where
  covered : Covered crew start trace a.log a.cursor
  from_ : start ≤ a.cursor
  within : a.cursor = start ∨ a.cursor ≤ a.log.newest
  written : ∀ p i b raised, (p,Event.wrote i b raised) ∈ trace → ∃ c, start ≤ c ∧ IsWindow a.log c b

structure Working (crew : Crew π) (start : Int) (p : π) (trace : List (π × Event ι))
    (a : Account π ι) (l : Process ι) : Prop where
  path : Path (Follows (crew.sinks p)) .ended (own p trace) l.phase
  ready : ∀ connection now b, l.inHand crew.name connection now = some b →
    Ready crew start trace a.log b

theorem isWindow_of_rows {hi cursor : Int} {name : String} {connection : Option Nat} {now : Int}
    {b : Batch ι} (below : hi ≤ log.newest)
    (built : buildBatch name connection now (windowRows log cursor hi) = some b) :
    IsWindow log cursor b := by
  obtain ⟨first,stop,items,some_,_⟩ := built_of_windowRows built
  obtain ⟨row,_,above,under⟩ := SnapshotLog.between_ne_nil_iff.mp some_
  exact ⟨first,by omega,by omega,by rw [items, stop]⟩

variable {p q : π} {a : Account π ι} {l : Process ι}
  {done : List (Event ι) × Account π ι × Process ι}

theorem written_moved (sound : Sound crew start trace a) (working : Working crew start p trace a l)
    (moved : Moved crew p a l done) (p' : π) (i : Nat) (b : Batch ι) (raised : Option Exc)
    (member : (p',Event.wrote i b raised) ∈ trace ++ done.1.map (p,·)) :
    ∃ c, start ≤ c ∧ IsWindow done.2.1.log c b := by
  have grown := moved_log moved
  rcases List.mem_append.mp member with old | new
  · obtain ⟨c,from_,window⟩ := sound.written p' i b raised old
    exact ⟨c,from_,isWindow_grown window grown⟩
  · obtain ⟨event,inside,same⟩ := List.mem_map.mp new
    obtain ⟨_,rfl⟩ := Prod.mk.inj same
    cases moved with
    | landed items => simp at inside
    | released => simp at inside
    | started => simp at inside
    | listened hi idle below => simp at inside
    | @wrote event batch phase connection now hand follows wrote still keeps =>
      obtain rfl := List.mem_singleton.mp inside
      obtain rfl := wrote i b raised rfl
      obtain ⟨c,from_,window,_⟩ := working.ready connection now b hand
      exact ⟨c,from_,window⟩
    | committed takes raised at_ follows keeps allowed => simp at inside

/-- A step keeps what covers the cursor; a commit moves it to the end of an accepted window. -/
theorem sound_moved (sound : Sound crew start trace a) (working : Working crew start p trace a l)
    (moved : Moved crew p a l done) :
    Sound crew start (trace ++ done.1.map (p,·)) done.2.1 := by
  have written := written_moved sound working moved
  have same : ∀ more, Covered crew start (trace ++ more) a.log a.cursor :=
    fun more => covered_append sound.covered more
  cases moved with
  | landed items =>
    refine ⟨covered_grown sound.covered sound.within _ (Or.inr ⟨items,rfl⟩),sound.from_,?_,written⟩
    rcases sound.within with at_ | below
    · exact Or.inl at_
    · right
      simp only [SnapshotLog.land]
      omega
  | released => exact ⟨same _,sound.from_,sound.within,written⟩
  | started => exact ⟨same _,sound.from_,sound.within,written⟩
  | listened hi idle below => exact ⟨same _,sound.from_,sound.within,written⟩
  | wrote connection now hand follows wrote still keeps => exact ⟨same _,sound.from_,sound.within,written⟩
  | @committed b phase takes raised at_ follows keeps allowed =>
    cases takes with
    | false => exact ⟨same _,sound.from_,sound.within,written⟩
    | true =>
      have ready := working.ready none 0 b (by rw [Process.inHand, at_])
      have passed := phase_passed working.path
      rw [at_] at passed
      have covered := covered_window ready (passedBelow_all passed)
      obtain ⟨c,from_,window,_⟩ := ready
      exact ⟨covered_append covered _,from_.trans window.forward.le,Or.inr window.below,written⟩

theorem working_moved (sound : Sound crew start trace a) (working : Working crew start p trace a l)
    (moved : Moved crew p a l done) :
    Working crew start p (trace ++ done.1.map (p,·)) done.2.1 done.2.2 := by
  have path : Path (Follows (crew.sinks p)) .ended (own p (trace ++ done.1.map (p,·)))
      done.2.2.phase := by
    rw [own_append, own_same]
    exact path_append working.path (moved_follows moved)
  refine ⟨path,?_⟩
  have grown := moved_log moved
  have same : ∀ connection now b, l.inHand crew.name connection now = some b →
      Ready crew start (trace ++ done.1.map (p,·)) done.2.1.log b :=
    fun connection now b hand => ready_grown (working.ready connection now b hand) _ grown
  cases moved with
  | landed items => exact same
  | released => exact same
  | started =>
    intro connection now b hand
    simp [Process.inHand, buildBatch] at hand
  | listened hi idle below =>
    intro connection now b hand
    exact ⟨a.cursor,sound.from_,isWindow_of_rows below hand,covered_append sound.covered _⟩
  | @wrote event batch phase connection now hand follows wrote still keeps =>
    intro connection' now' b hand'
    rcases keeps with rfl | ⟨i,rfl⟩
    · simp [Process.inHand] at hand'
    · obtain rfl := Option.some.inj hand'
      exact same connection now batch hand
  | @committed batch phase takes raised at_ follows keeps allowed =>
    intro connection now b hand
    rcases keeps with rfl | rfl
    · exact same connection now b hand
    · simp [Process.inHand] at hand

theorem working_others (working : Working crew start q trace a l) (other : q ≠ p) {l' : Process ι}
    (moved : Moved crew p a l' done) :
    Working crew start q (trace ++ done.1.map (p,·)) done.2.1 l where
  path := by
    rw [own_append, own_other other, List.append_nil]
    exact working.path
  ready connection now b hand :=
    ready_grown (working.ready connection now b hand) _ (moved_log moved)

theorem kept : Kept (does crew) (Sound (ι := ι) crew start) (Working crew start) where
  own _ _ _ _ _ _ sound working moves :=
    ⟨sound_moved sound working (does_moved moves),working_moved sound working (does_moved moves)⟩
  others _ _ _ _ _ _ _ _ other _ _ working moves :=
    working_others working other (does_moved moves)

end

section
variable [DecidableEq π] {crew : Crew π} {log : SnapshotLog ι} {start : Int} {p : π}

theorem sound_initial : Sound crew start [] (Fleet.initial (π := π) log start).shared where
  covered _ _ above below := absurd above (not_lt.mpr below)
  from_ := Int.le_refl _
  within := Or.inl rfl
  written _ _ _ _ none_ := nomatch none_

theorem working_initial : Working crew start p [] (Fleet.initial (π := π) log start).shared {} where
  path := Path.nil _
  ready _ _ _ none_ := nomatch none_

end

theorem fleet_sound [DecidableEq π] (crew : Crew π) (log : SnapshotLog ι) (start : Int)
    (turns : List (π × Move ι)) :
    let s := run (does crew) (Fleet.initial log start) turns
    Sound crew start s.trace s.shared := by
  have initial : Holds (Sound (ι := ι) crew start) (Working crew start)
      (Fleet.initial log start) := ⟨sound_initial,fun _ => working_initial⟩
  exact (run_keeps kept turns initial).common

/-- Any number of processes run one consumer, in any interleaving, each dying and starting
    again at any time, with the lease enforced or not: a row the durable cursor has passed
    was accepted by every required sink of one of them. -/
theorem fleet_at_least_once [DecidableEq π] (crew : Crew π) (log : SnapshotLog ι) (start : Int)
    (turns : List (π × Move ι)) :
    let s := run (does crew) (Fleet.initial log start) turns
    ∀ row ∈ s.shared.log.rows, start < row.1 → row.1 ≤ s.shared.cursor →
      Acknowledged crew s.trace row :=
  (fleet_sound crew log start turns).covered

end CdcFleet
