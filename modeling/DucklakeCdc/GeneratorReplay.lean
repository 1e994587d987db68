import DucklakeCdc.BatchesGenerator
import DucklakeCdc.Histories

/-!
Replays: the batch a loop of `batches` hands out for a cursor whose last batch was left
uncommitted. The listen calls answer with the largest window after the cursor of at most
`max_snapshots` snapshots.
-/
namespace CdcGenerator
open Histories CdcBatch CdcRetry CdcWindow CdcLoop
variable {ι : Type}

/-- A loop, the upstream log and the cursor. `uncommitted` is the last batch yielded for
    the cursor while nothing landed, with the window size it was asked for; `replays`
    pairs each such batch with the one yielded after it. -/
structure Session (ι : Type) where
  run : Run ι := {}
  log : SnapshotLog ι
  cursor : Int
  uncommitted : Option (Int × Batch ι) := none
  replays : List (Batch ι × Batch ι) := []

/-- `restart` is a new loop with the same arguments, whatever became of the old one. -/
inductive Happening (ι : Type) where
  | next (asks reads : Moment)
  | turn (t : Turn ι)
  | land (items : List ι)
  | commit (snapshot : Int)
  | restart

def Session.answer (s : Session ι) (maxSnapshots : Int) : List (Row ι) :=
  windowRows s.log s.cursor (min (s.cursor + maxSnapshots) s.log.newest)

def Session.answered (s : Session ι) (o : BatchOptions) (t : Turn ι) (g : Generator) : Turn ι :=
  { t with outcome := t.outcome.map fun _ => s.answer (g.request o) }

def Session.came (s : Session ι) (asked : Int) (run : Run ι) : Session ι :=
  match run.status with
  | .suspended batch _ =>
    { s with
      run := run
      uncommitted := some (asked, batch)
      replays := (s.uncommitted.map fun before => (before.2, batch)).toList ++ s.replays }
  | _ => { s with run := run }

def Session.after (c : Consumer) (o : BatchOptions) (s : Session ι) : Happening ι → Session ι
  | .next asks reads => { s with run := advance c o s.run (.next asks reads) }
  | .turn t =>
    match s.run.status with
    | .polling g => s.came (g.request o) (pass c o (s.answered o t g) g s.run)
    | _ => s
  | .land items => { s with log := s.log.land items, uncommitted := none }
  | .commit snapshot => { s with cursor := snapshot, uncommitted := none }
  | .restart => { s with run := { around := s.run.around } }

structure SameBatch (b b' : Batch ι) : Prop where
  start : b.startSnapshot = b'.startSnapshot
  stop : b.endSnapshot = b'.endSnapshot
  identity : b.batchId = b'.batchId
  items : b.items = b'.items

def ReplaysSame (s : Session ι) : Prop := ∀ pair ∈ s.replays, SameBatch pair.1 pair.2

/-- Two window sizes that reach equally far: one size, or both past the newest snapshot. -/
def Session.ReachAlike (s : Session ι) (k k' : Int) : Prop :=
  k = k' ∨ (s.log.newest ≤ s.cursor + k ∧ s.log.newest ≤ s.cursor + k')

/-- The listen that replays a batch asks as far as the one that brought it. -/
def AsksAlike (o : BatchOptions) (s : Session ι) : Happening ι → Prop
  | .turn t => ∀ g k b rows, s.run.status = .polling g → s.uncommitted = some (k, b) →
      (looked o t s.run).stopSeen o = false → t.outcome = .ok rows →
      s.answer (g.request o) ≠ [] → s.ReachAlike k (g.request o)
  | _ => True

theorem batchId_of_built {name : String} {conn : Option Nat} {now : Int} {rows : List (Row ι)}
    {b : Batch ι} (built : buildBatch name conn now rows = some b) :
    b.batchId = deriveBatchId name b.startSnapshot b.endSnapshot := by
  simp only [buildBatch, Option.bind_eq_bind, Option.bind_eq_some_iff] at built
  obtain ⟨start,_,stop,_,same⟩ := built
  cases same
  rfl

theorem sameBatch_iff {s : Session ι} {k k' : Int} {name : String} {conn conn' : Option Nat}
    {wall wall' : Int} {b b' : Batch ι}
    (built : buildBatch name conn wall (s.answer k) = some b)
    (built' : buildBatch name conn' wall' (s.answer k') = some b') :
    SameBatch b b' ↔ s.ReachAlike k k' := by
  obtain ⟨start,stop,items,_,_⟩ := built_of_windowRows built
  obtain ⟨start',stop',items',_,_⟩ := built_of_windowRows built'
  constructor
  · intro same
    have ends := same.stop
    rw [stop, stop'] at ends
    unfold Session.ReachAlike
    omega
  · intro alike
    have ends : min (s.cursor + k) s.log.newest = min (s.cursor + k') s.log.newest := by
      unfold Session.ReachAlike at alike
      omega
    have starts : b.startSnapshot = b'.startSnapshot := start.trans start'.symm
    have stops : b.endSnapshot = b'.endSnapshot := by rw [stop, stop', ends]
    refine ⟨starts,stops,?_,?_⟩
    · rw [batchId_of_built built, batchId_of_built built', starts, stops]
    · rw [items, items', ends]

/-- The uncommitted batch is what its listen call answered, and answers still. -/
structure Replaying (c : Consumer) (s : Session ι) : Prop where
  same : ReplaysSame s
  built : ∀ k b, s.uncommitted = some (k, b) →
    ∃ conn wall, buildBatch c.name conn wall (s.answer k) = some b

section
variable {c : Consumer} {o : BatchOptions} {s : Session ι}

theorem replaying_run (h : Replaying c s) (run : Run ι) : Replaying c { s with run := run } :=
  ⟨h.same,h.built⟩

theorem replaying_fresh (h : Replaying c s) (log : SnapshotLog ι) (cursor : Int) :
    Replaying c { s with log := log, cursor := cursor, uncommitted := none } :=
  ⟨h.same,fun _ _ no => by cases no⟩

theorem came_suspended {asked : Int} {run : Run ι} {batch : Batch ι} {g : Generator}
    (status : run.status = .suspended batch g) :
    s.came asked run = { s with
      run := run
      uncommitted := some (asked, batch)
      replays := (s.uncommitted.map fun before => (before.2, batch)).toList ++ s.replays } := by
  simp only [Session.came, status]

theorem came_otherwise {asked : Int} {run : Run ι}
    (status : ∀ batch g, run.status ≠ .suspended batch g) :
    s.came asked run = { s with run := run } := by
  unfold Session.came
  split
  · rename_i batch g same
    exact absurd same (status batch g)
  · rfl

theorem yields_answer {t : Turn ι} {g : Generator} {batch : Batch ι} {g' : Generator}
    (status : (pass c o (s.answered o t g) g s.run).status = .suspended batch g') :
    ∃ rows, (looked o t s.run).stopSeen o = false ∧ t.outcome = .ok rows ∧
      s.answer (g.request o) ≠ [] ∧
      buildBatch c.name t.connection t.wall (s.answer (g.request o)) = some batch := by
  have came := passes c o (s.answered o t g) g s.run
  generalize pass c o (s.answered o t g) g s.run = run at came status
  cases came with
  | yielded rows batch' elapsedMs unseen outcome some_ built took =>
    cases given : t.outcome with
    | error e =>
      simp only [Session.answered, given, Except.map] at outcome
      contradiction
    | ok rows' =>
      simp only [Session.answered, given, Except.map, Except.ok.injEq] at outcome
      subst outcome
      cases status
      exact ⟨rows',unseen,rfl,some_,built⟩
  | _ => cases status

theorem replaying_turn (h : Replaying c s) (t : Turn ι) (g : Generator)
    (alike : ∀ k b rows, s.uncommitted = some (k, b) →
      (looked o t s.run).stopSeen o = false → t.outcome = .ok rows →
      s.answer (g.request o) ≠ [] → s.ReachAlike k (g.request o)) :
    Replaying c (s.came (g.request o) (pass c o (s.answered o t g) g s.run)) := by
  by_cases yields : ∃ batch g', (pass c o (s.answered o t g) g s.run).status = .suspended batch g'
  · obtain ⟨batch,g',status⟩ := yields
    obtain ⟨rows,unseen,outcome,some_,built⟩ := yields_answer status
    rw [came_suspended status]
    refine ⟨?_,?_⟩
    · intro pair member
      rcases List.mem_append.mp member with new | old
      · cases left : s.uncommitted with
        | none =>
          rw [left] at new
          contradiction
        | some before =>
          obtain ⟨k,b⟩ := before
          rw [left] at new
          obtain rfl := List.mem_singleton.mp new
          obtain ⟨conn,wall,built'⟩ := h.built k b left
          exact (sameBatch_iff built' built).mpr (alike k b rows left unseen outcome some_)
      · exact h.same pair old
    · intro k b same
      cases same
      exact ⟨t.connection,t.wall,built⟩
  · rw [came_otherwise fun batch g' status => yields ⟨batch,g',status⟩]
    exact replaying_run h _

end

theorem replaying_kept (c : Consumer) (o : BatchOptions) (s : Session ι) (happening : Happening ι)
    (h : Replaying c s) (alike : AsksAlike o s happening) : Replaying c (s.after c o happening) := by
  cases happening with
  | next asks reads => exact replaying_run h _
  | turn t =>
    cases status : s.run.status with
    | polling g =>
      simp only [Session.after, status]
      exact replaying_turn h t g fun k b rows => alike g k b rows status
    | _ => simpa only [Session.after, status] using h
  | land items => exact replaying_fresh h _ _
  | commit snapshot => exact replaying_fresh h _ _
  | restart => exact replaying_run h _

theorem alike_of_same (c : Consumer) (o : BatchOptions) (s : Session ι) (happening : Happening ι)
    (h : Replaying c s) (same : ReplaysSame (s.after c o happening)) :
    AsksAlike o s happening := by
  cases happening with
  | turn t =>
    intro g k b rows status left unseen outcome some_
    obtain ⟨batch,built⟩ := build_ne_none c.name t.connection t.wall some_
    obtain ⟨conn,wall,built'⟩ := h.built k b left
    have answers : (s.answered o t g).outcome = .ok (s.answer (g.request o)) := by
      simp only [Session.answered, outcome, Except.map]
    obtain ⟨g',yields⟩ := pass_suspends (t := s.answered o t g) (g := g) unseen answers
      some_ built
    have pair : (b, batch) ∈ (s.after c o (.turn t)).replays := by
      simp only [Session.after, status, came_suspended yields, left]
      exact List.mem_cons_self
    exact (sameBatch_iff built' built).mp (same _ pair)
  | _ => trivial

/-- In a run every batch left uncommitted is replayed as the same batch exactly when every
    replaying listen asks as far as the one before it did. -/
theorem uncommitted_batch_replayed (c : Consumer) (o : BatchOptions) (log : SnapshotLog ι)
    (cursor : Int) (around : Surroundings) (happenings : List (Happening ι)) :
    (∀ s ∈ visited (Session.after c o) { run := { around := around }, log := log, cursor := cursor }
      happenings, ReplaysSame s) ↔
    EveryStep (Session.after c o) (AsksAlike o)
      { run := { around := around }, log := log, cursor := cursor } happenings := by
  apply safe_iff_clean (Replaying c) (replaying_kept c o) (fun _ h => h.same)
  · exact fun s happening h same => alike_of_same c o s happening h same
  · exact ⟨List.forall_mem_nil _,fun _ _ no => by cases no⟩

def Status.generator? : Status ι → Option Generator
  | .polling g => some g
  | .suspended _ g => some g
  | _ => none

def Plain (r : Run ι) : Prop := ∀ g, r.status.generator? = some g → g.adaptiveWindow = none

theorem plain_become (r : Run ι) (g : Generator) (plain : g.adaptiveWindow = none)
    (status : Status ι) (same : status.generator? = some g) : Plain (r.become status) := by
  intro g' stands
  obtain rfl : g = g' := Option.some.inj (same.symm.trans stands)
  exact plain

theorem plain_created (around : Surroundings) : Plain ({ around := around } : Run ι) := by
  intro g no
  cases no

theorem plain_kept {c : Consumer} (ddl : c.kind = .ddl) (o : BatchOptions) (r : Run ι)
    (move : Move ι) (h : Plain r) : Plain (advance c o r move) := by
  have notDml : c.kind ≠ .dml := by rw [ddl]; exact ConsumerKind.noConfusion
  cases move with
  | next asks reads =>
    cases status : r.status with
    | created =>
      simp only [advance, status, start, if_neg notDml]
      split
      · exact plain_become _ _ rfl _ rfl
      · exact fun _ no => by cases no
    | suspended batch g =>
      have plain : g.adaptiveWindow = none := h g (by rw [status]; rfl)
      simp only [advance, status, proceed]
      split
      · exact fun _ no => by cases no
      · split
        · exact fun _ no => by cases no
        · exact plain_become _ { g with yielded := g.yielded + 1 } plain _ rfl
    | _ => simpa only [advance, status] using h
  | turn t =>
    cases status : r.status with
    | polling g =>
      have plain : g.adaptiveWindow = none := h g (by rw [status]; rfl)
      have came := passes c o t g r
      simp only [advance, status]
      generalize pass c o t g r = s at came
      cases came with
      | again unseen outcome unseen' infinite short =>
        refine plain_become _ g.observeEmpty ?_ _ rfl
        simp only [Generator.observeEmpty, plain, Option.map_none]
      | yielded rows batch elapsedMs unseen outcome some_ built took =>
        refine plain_become _ _ ?_ _ rfl
        simp only [Generator.observeBatch, plain, Option.map_none]
      | _ => exact fun _ no => by cases no
    | _ => simpa only [advance, status] using h

structure Steady (o : BatchOptions) (s : Session ι) : Prop where
  plain : Plain s.run
  asked : ∀ k b, s.uncommitted = some (k, b) → k = o.maxSnapshots

theorem request_of_plain {r : Run ι} {g : Generator} (o : BatchOptions) (h : Plain r)
    (status : r.status = .polling g) : g.request o = o.maxSnapshots := by
  have plain : g.adaptiveWindow = none := h g (by rw [status]; rfl)
  rw [Generator.request, plain]
  rfl

theorem steady_kept {c : Consumer} (ddl : c.kind = .ddl) (o : BatchOptions) (s : Session ι)
    (happening : Happening ι) (h : Steady o s) : Steady o (s.after c o happening) := by
  cases happening with
  | next asks reads => exact ⟨plain_kept ddl o s.run _ h.plain,h.asked⟩
  | turn t =>
    cases status : s.run.status with
    | polling g =>
      have kept := plain_kept ddl o s.run (.turn (s.answered o t g)) h.plain
      simp only [advance, status] at kept
      simp only [Session.after, status]
      unfold Session.came
      split
      · refine ⟨kept,?_⟩
        intro k b same
        cases same
        exact request_of_plain o h.plain status
      · exact ⟨kept,h.asked⟩
    | _ => simpa only [Session.after, status] using h
  | land items => exact ⟨h.plain,fun _ _ no => by cases no⟩
  | commit snapshot => exact ⟨h.plain,fun _ _ no => by cases no⟩
  | restart => exact ⟨plain_created _,h.asked⟩

/-- A DDL consumer, whose window does not adapt, replays every uncommitted batch. -/
theorem ddl_replays_same {c : Consumer} (ddl : c.kind = .ddl) (o : BatchOptions)
    (log : SnapshotLog ι) (cursor : Int) (around : Surroundings)
    (happenings : List (Happening ι)) :
    ∀ s ∈ visited (Session.after c o) { run := { around := around }, log := log, cursor := cursor }
      happenings, ReplaysSame s := by
  have both : ∀ s ∈ visited (Session.after c o)
      { run := { around := around }, log := log, cursor := cursor } happenings,
      Steady o s ∧ Replaying c s := by
    apply always
    · intro s happening h
      refine ⟨steady_kept ddl o s happening h.1,replaying_kept c o s happening h.2 ?_⟩
      cases happening with
      | turn t =>
        intro g k b rows status left _ _ _
        exact Or.inl ((h.1.asked k b left).trans (request_of_plain o h.1.plain status).symm)
      | _ => trivial
    · exact ⟨⟨plain_created _,fun _ _ no => by cases no⟩,
        List.forall_mem_nil _,fun _ _ no => by cases no⟩
  exact fun s member => (both s member).2.same

def twenty : SnapshotLog Unit := (List.replicate 20 [()]).foldl SnapshotLog.land (.bare 0)

def rolledBack : List (Happening Unit) :=
  [.next {} {},.turn { outcome := .ok [] },.next {} {},.turn { outcome := .ok [] }]

theorem wider_replay :
    ¬ ∀ s ∈ visited (Session.after .orders {}) { log := twenty, cursor := 0 } rolledBack,
      ReplaysSame s := by
  intro all
  have some_ : rolledBack ≠ [] := by simp [rolledBack]
  have last := all _ (foldl_visited _ some_)
  have stops : (rolledBack.foldl (Session.after .orders {})
      { log := twenty, cursor := 0 }).replays.map
        (fun pair => (pair.1.endSnapshot, pair.2.endSnapshot)) = [(8, 16)] := by
    decide +kernel
  obtain ⟨pair,member,differ⟩ := List.mem_map.mp (stops ▸ List.mem_cons_self)
  have same := (last pair member).stop
  simp only [Prod.mk.injEq] at differ
  omega

end CdcGenerator
