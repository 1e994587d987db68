import DucklakeCdc.Histories
import DucklakeCdc.SinkDelivery

/-!
Pull mode: the caller listens, reads with or without an explicit window, and commits any
batch it holds, in any order. A commit sends the batch's own end whatever the cursor, so
replayed, late and look-ahead batches move it; it goes forward over delivered snapshots
as long as every commit ends where the windows in the caller's hands reach.
-/
namespace CdcPull
open Programs Histories CdcBatch CdcDatabase CdcRetry CdcLoop CdcDelivery
variable {ι : Type}

/-- A batch in the caller's hands and the newest snapshot when it was returned. -/
structure Returned (ι : Type) where
  batch : Batch ι
  newest : Int
  deriving DecidableEq

structure Puller (ι : Type) where
  world : World ι
  returned : List (Returned ι) := []

inductive Call (ι : Type) where
  | listen (maxSnapshots : Int) (retry : Option RetryPolicy)
  | read (maxSnapshots : Int) (startSnapshot endSnapshot : Option Int)
      (retry : Option RetryPolicy)
  | commit (index : Nat)

abbrev Pulls (ι : Type) := EStateM Stop (Puller ι)

def onClient {α : Type} (p : Client ι α) : Pulls ι α :=
  within Puller.world (fun s w => { s with world := w }) p

def receive : Option (Batch ι) → Pulls ι Unit
  | none => pure ()
  | some b => modify fun s => { s with returned := s.returned ++ [⟨b,s.world.log.newest⟩] }

def perform (cdc : Extension ι) (c : Consumer) : Call ι → Pulls ι Unit
  | .listen k retry => do
    let given ← onClient (CdcLoop.listen cdc c k retry)
    receive given
  | .read k start stop retry => do
    let given ← onClient (CdcLoop.read cdc c k start stop retry)
    receive given
  | .commit index => do
    let s ← get
    match s.returned[index]? with
    | none => pure ()
    | some r => onClient (CdcDelivery.commit c r.batch)

structure Pull (ι : Type) where
  call : Call ι
  script : List (Act ι)

def pull (cdc : Extension ι) (c : Consumer) (s : Puller ι) (p : Pull ι) : Puller ι :=
  finalState (perform cdc c p.call) { s with world := { s.world with script := p.script } }

def Puller.initial (log : SnapshotLog ι) (start : Int) : Puller ι where
  world := World.initial log start

/-- Snapshot `n` had landed when the caller was given a batch with `n` in its window. -/
def Reaches (s : Puller ι) (n : Int) : Prop :=
  ∃ r ∈ s.returned, r.batch.startSnapshot ≤ n ∧ n ≤ r.batch.endSnapshot ∧ n ≤ r.newest

/-- A commit ends at or after the cursor, and windows in hand reach from one to the other. -/
def Forward (s : Puller ι) (p : Pull ι) : Prop :=
  match p.call with
  | .commit index => ∀ r, s.returned[index]? = some r →
      s.world.cursor ≤ r.batch.endSnapshot ∧
      ∀ n, s.world.cursor < n → n ≤ r.batch.endSnapshot → Reaches s n
  | _ => True

/-- The cursor does not go back, and goes only over rows of batches given to the caller. -/
def Delivered (s t : Puller ι) : Prop :=
  s.world.cursor ≤ t.world.cursor ∧
  ∀ row ∈ t.world.log.rows, s.world.cursor < row.1 → row.1 ≤ t.world.cursor →
    ∃ r ∈ t.returned, row.2 ∈ r.batch.items

/-- A batch has every row of its window that had landed when it was returned. -/
structure Complete (log : SnapshotLog ι) (r : Returned ι) : Prop where
  landed : r.newest ≤ log.newest
  rows : ∀ row ∈ log.rows, r.batch.startSnapshot ≤ row.1 → row.1 ≤ r.batch.endSnapshot →
    row.1 ≤ r.newest → row.2 ∈ r.batch.items

variable {log : SnapshotLog ι} {s : Puller ι} {w : World ι}

theorem complete_land {r : Returned ι} (items : List ι) (h : Complete log r) :
    Complete (log.land items) r where
  landed := by
    have := h.landed
    simp only [SnapshotLog.land]
    omega
  rows := by
    intro row member above below landed
    rcases List.mem_append.mp member with old | new
    · exact h.rows row old above below landed
    · obtain ⟨item,_,rfl⟩ := List.mem_map.mp new
      have := h.landed
      simp only at landed
      omega

theorem complete_window {b : Batch ι} {lo hi : Int} (start : b.startSnapshot = lo + 1)
    (stop : b.endSnapshot = hi) (items : b.items = log.between lo hi) :
    Complete log ⟨b,log.newest⟩ where
  landed := Int.le_refl _
  rows := by
    intro row member above below _
    rw [items]
    exact SnapshotLog.mem_between member (by simp only at above; omega) (by simp only at below; omega)

def Unmoved (rs : List (Returned ι)) (db : Database ι) (w : World ι) : Prop :=
  (∀ r ∈ rs, Complete w.log r) ∧ w.db = db

theorem ambient_complete (rs : List (Returned ι)) :
    Ambient (fun w : World ι => ∀ r ∈ rs, Complete w.log r) :=
  ambient_of (fun _ items h r member => complete_land items (h r member))
    (fun _ _ _ _ _ _ h => h)

theorem ambient_unmoved (rs : List (Returned ι)) (db : Database ι) :
    Ambient (Unmoved rs db) := ambient_and (ambient_complete rs) (ambient_db (· = db))

theorem complete_built {c : Consumer} {u : World ι} {lo hi now : Int} {b : Batch ι}
    (built : buildBatch c.name (some u.db.live) now (windowRows u.log lo hi) = some b) :
    Complete u.log ⟨b,u.log.newest⟩ := by
  obtain ⟨start,stop,items,_⟩ := built_of_windowRows built
  exact complete_window start stop items

theorem ends_listenOp_complete (cdc : Extension ι) (c : Consumer) (k : Int)
    {rs : List (Returned ι)} {db : Database ι} (h : Unmoved rs db w) :
    Ends (listenOp cdc k) w
      (fun rows v => Unmoved rs db v ∧
        ∀ now b, buildBatch c.name (some v.db.live) now rows = some b →
          Complete v.log ⟨b,v.log.newest⟩)
      (fun _ => Unmoved rs db) := by
  refine ends_listenOp (ambient_unmoved rs db) h ?_ (fun _ _ hv => hv)
  exact fun v wish hv => ⟨hv,fun now b built => complete_built (u := v) built⟩

theorem ends_readOp_complete (cdc : Extension ι) (c : Consumer) (k : Int)
    (startSnapshot endSnapshot : Option Int) {rs : List (Returned ι)} {db : Database ι}
    (h : Unmoved rs db w) :
    Ends (readOp cdc c k startSnapshot endSnapshot) w
      (fun rows v => Unmoved rs db v ∧
        ∀ now b, buildBatch c.name (some v.db.live) now rows = some b →
          Complete v.log ⟨b,v.log.newest⟩)
      (fun _ => Unmoved rs db) := by
  cases startSnapshot with
  | none =>
    cases endSnapshot with
    | none => exact ends_listenOp_complete cdc c k h
    | some _ => exact h
  | some start =>
    cases endSnapshot with
    | none => exact h
    | some stop =>
      rw [readOp, ends_bind]
      apply ends_step (fun _ => h)
      intro act rest script
      have kept := (ambient_unmoved rs db).meet w rest act script h
      cases act.raises with
      | some e => exact kept
      | none =>
        rw [ends_bind, ends_get, ends_bind, ends_set]
        generalize { w with script := rest }.meet act = v at kept
        exact ⟨kept,fun now b built => complete_built (u := v) built⟩

def Kept (s t : Puller ι) : Prop :=
  (∀ r ∈ t.returned, Complete t.world.log r) ∧ Delivered s t

theorem delivered_of_unmoved {t : Puller ι} (same : t.world.db = s.world.db) : Delivered s t := by
  have cursor : t.world.cursor = s.world.cursor := by rw [World.cursor, World.cursor, same]
  refine ⟨Int.le_of_eq cursor.symm,fun row _ above below => ?_⟩
  omega

theorem ends_given {p : Client ι (Option (Batch ι))}
    (fetched : Ends p s.world
      (fun given u => Unmoved s.returned s.world.db u ∧
        ∀ b, given = some b → Complete u.log ⟨b,u.log.newest⟩)
      (fun _ => Unmoved s.returned s.world.db)) :
    Ends (do let given ← onClient p; receive given) s (fun _ => Kept s) (fun _ => Kept s) := by
  rw [ends_bind, onClient, ends_within]
  refine ends_mono fetched ?_ (fun _ u hu => ⟨hu.1,delivered_of_unmoved hu.2⟩)
  intro given u facts
  obtain ⟨⟨complete,same⟩,isComplete⟩ := facts
  cases given with
  | none => exact ⟨complete,delivered_of_unmoved same⟩
  | some b =>
    refine ⟨?_,delivered_of_unmoved same⟩
    intro r member
    rcases List.mem_append.mp member with old | new
    · exact complete r old
    · rw [List.mem_singleton.mp new]
      exact isComplete b rfl

theorem ends_committed {c : Consumer} {b : Batch ι}
    (complete : ∀ r ∈ s.returned, Complete s.world.log r)
    (ahead : s.world.cursor ≤ b.endSnapshot)
    (reaches : ∀ n, s.world.cursor < n → n ≤ b.endSnapshot → Reaches s n) :
    Ends (onClient (CdcDelivery.commit c b)) s (fun _ => Kept s) (fun _ => Kept s) := by
  let moved : World ι → Prop := fun u => (∀ r ∈ s.returned, Complete u.log r) ∧
    (u.cursor = s.world.cursor ∨ u.cursor = b.endSnapshot)
  have amb : Ambient moved := ambient_and (ambient_complete s.returned)
    (ambient_db fun db => db.visible = s.world.cursor ∨ db.visible = b.endSnapshot)
  have kept : Keeps moved (CdcDelivery.commit c b) := by
    refine keeps_policy c.retryPolicy (keeps_commitOp amb ?_) (ends_sleep amb)
    intro u reply facts
    obtain ⟨complete,cursor⟩ := facts
    refine ⟨complete,?_⟩
    have answered := Database.visible_answer u.db b.endSnapshot reply
    simp only [World.cursor, World.commitAnswered, World.record] at cursor ⊢
    omega
  have delivered : ∀ u, moved u → Kept s { s with world := u } := by
    rintro u ⟨complete,still | end_⟩
    · exact ⟨complete,by simp only; omega,fun row _ above below => by simp only at below; omega⟩
    · refine ⟨complete,by simp only; omega,fun row member above below => ?_⟩
      obtain ⟨r,inHand,low,high,landed⟩ := reaches row.1 above (by simp only at below; omega)
      exact ⟨r,inHand,(complete r inHand).rows row member low high landed⟩
  rw [onClient, ends_within]
  exact ends_mono (kept s.world ⟨complete,Or.inl rfl⟩) (fun _ u hu => delivered u hu)
    (fun _ u hu => delivered u hu)

theorem kept_pull (cdc : Extension ι) (c : Consumer) (p : Pull ι)
    (complete : ∀ r ∈ s.returned, Complete s.world.log r) (forward : Forward s p) :
    Kept s (pull cdc c s p) := by
  have scripted : ∀ t, Kept { s with world := { s.world with script := p.script } } t → Kept s t :=
    fun t h => h
  refine scripted _ (ends_final _ ?_)
  unfold Forward at forward
  cases call : p.call with
  | listen k retry =>
    exact ends_given (ends_fetch (ambient_unmoved _ _) retry
      (fun u hu => ends_listenOp_complete cdc c k hu) _ ⟨complete,rfl⟩)
  | read k start stop retry =>
    exact ends_given (ends_fetch (ambient_unmoved _ _) retry
      (fun u hu => ends_readOp_complete cdc c k start stop hu) _ ⟨complete,rfl⟩)
  | commit index =>
    rw [call] at forward
    rw [perform, ends_bind, ends_get]
    cases held : s.returned[index]? with
    | none =>
      exact ⟨complete,delivered_of_unmoved rfl⟩
    | some r =>
      obtain ⟨ahead,reaches⟩ := forward r held
      exact ends_committed complete ahead reaches

/-- In every run whose commits go forward over windows in hand, each call moves the
    cursor forward, and only over rows of batches returned to the caller. -/
theorem pull_forward (cdc : Extension ι) (c : Consumer) (log : SnapshotLog ι) (start : Int)
    (ps : List (Pull ι)) (forward : EveryStep (pull cdc c) Forward (Puller.initial log start) ps) :
    EveryStep (pull cdc c) (fun s p => Delivered s (pull cdc c s p)) (Puller.initial log start)
      ps := by
  have kept : ∀ (ps : List (Pull ι)) (s : Puller ι), (∀ r ∈ s.returned, Complete s.world.log r) →
      EveryStep (pull cdc c) Forward s ps →
      EveryStep (pull cdc c) (fun s p => Delivered s (pull cdc c s p)) s ps := by
    intro ps
    induction ps with
    | nil => exact fun _ _ _ => trivial
    | cons p rest ih =>
      intro s complete forward
      have step := kept_pull cdc c p complete forward.1
      exact ⟨step.2,ih _ step.1 forward.2⟩
  exact kept ps _ (fun _ no => by cases no) forward

def asAsked : Extension Nat where
  windowEnd _ cursor maxSnapshots _ := cursor + maxSnapshots

def twoSnapshots : SnapshotLog Nat := ((SnapshotLog.bare 0).land [10]).land [20]

def listenOne : Pull Nat := ⟨.listen 1 none,[{}]⟩

def commitAt (index : Nat) : Pull Nat := ⟨.commit index,[{}]⟩

theorem pull_forward_listen_commit :
    EveryStep (pull asAsked .orders) (fun s p => Delivered s (pull asAsked .orders s p))
      (Puller.initial twoSnapshots 0) [listenOne,commitAt 0] := by
  refine pull_forward asAsked .orders twoSnapshots 0 _ ⟨trivial,?_,trivial⟩
  have returned : (pull asAsked .orders (Puller.initial twoSnapshots 0) listenOne).returned =
      [⟨{ consumerName := "orders", batchId := "orders/1-1", startSnapshot := 1, endSnapshot := 1,
          snapshotIds := [1], receivedAt := 0, items := [10], connection := some 0 },2⟩] := by
    decide +kernel
  have cursor : (pull asAsked .orders (Puller.initial twoSnapshots 0) listenOne).world.cursor = 0 := by
    decide +kernel
  intro r held
  rw [returned] at held
  obtain rfl := Option.some.inj held
  rw [cursor]
  refine ⟨by simp,fun n above below => ?_⟩
  rw [Reaches, returned]
  exact ⟨_,List.mem_singleton.mpr rfl,by simp only; omega,below,by simp only at below ⊢; omega⟩

/-- The first batch is committed again after the second one. -/
def lateCommit : List (Pull Nat) := [listenOne,commitAt 0,listenOne,commitAt 1,commitAt 0]

theorem late_commit_moves_back :
    ¬ ∀ (cdc : Extension Nat) (c : Consumer) (log : SnapshotLog Nat) (start : Int)
      (ps : List (Pull Nat)), EveryStep (pull cdc c) (fun s p => Delivered s (pull cdc c s p))
        (Puller.initial log start) ps := by
  intro all
  have delivered := all asAsked .orders twoSnapshots 0 lateCommit
  obtain ⟨_,_,_,_,⟨forward,_⟩,_⟩ := delivered
  revert forward
  decide +kernel

end CdcPull
