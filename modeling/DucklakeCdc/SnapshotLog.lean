import Mathlib.Data.List.Perm.Basic
import Mathlib.Tactic.Common

/-!
An append-only log of numbered snapshots. Every snapshot carries items; a reader
takes the items of a window of snapshot numbers. Windows below the newest snapshot
never change, and adjacent windows join without loss or repetition.
-/

structure SnapshotLog (ι : Type) where
  rows : List (Int × ι)
  newest : Int
  bounded : ∀ row ∈ rows, row.1 ≤ newest

namespace SnapshotLog
variable {ι : Type}

/-- A log of snapshots that carry nothing. -/
def bare (newest : Int) : SnapshotLog ι where
  rows := []
  newest := newest
  bounded := List.forall_mem_nil _

def land (log : SnapshotLog ι) (items : List ι) : SnapshotLog ι where
  rows := log.rows ++ items.map (log.newest + 1, ·)
  newest := log.newest + 1
  bounded := by
    intro row member
    rcases List.mem_append.mp member with old | new
    · have := log.bounded row old
      omega
    · obtain ⟨item,_,rfl⟩ := List.mem_map.mp new
      exact Int.le_refl _

def inWindow (lo hi : Int) (row : Int × ι) : Bool := lo < row.1 && row.1 ≤ hi

def between (log : SnapshotLog ι) (lo hi : Int) : List ι :=
  (log.rows.filter (inWindow lo hi)).map Prod.snd

@[simp] theorem inWindow_iff (lo hi : Int) (row : Int × ι) :
    inWindow lo hi row = true ↔ lo < row.1 ∧ row.1 ≤ hi := by simp [inWindow]

theorem between_land (log : SnapshotLog ι) (items : List ι) {lo hi : Int}
    (old : hi ≤ log.newest) : (log.land items).between lo hi = log.between lo hi := by
  have none_new : (items.map (log.newest + 1, ·)).filter (inWindow lo hi) = [] := by
    rw [List.filter_eq_nil_iff]
    intro row member
    obtain ⟨item,_,rfl⟩ := List.mem_map.mp member
    simp only [inWindow_iff]
    omega
  simp only [between, land, List.filter_append, none_new, List.append_nil]

theorem between_self (log : SnapshotLog ι) (at_ : Int) : log.between at_ at_ = [] := by
  have none_in : log.rows.filter (inWindow at_ at_) = [] := by
    rw [List.filter_eq_nil_iff]
    intro row _
    simp only [inWindow_iff]
    omega
  simp [between, none_in]

theorem between_split (log : SnapshotLog ι) {lo mid hi : Int} (below : lo ≤ mid)
    (above : mid ≤ hi) :
    (log.between lo mid ++ log.between mid hi).Perm (log.between lo hi) := by
  have low : (log.rows.filter (inWindow lo hi)).filter (inWindow lo mid) =
      log.rows.filter (inWindow lo mid) := by
    rw [List.filter_filter]
    apply List.filter_congr
    intro row _
    rw [Bool.eq_iff_iff]
    simp only [inWindow, Bool.and_eq_true, decide_eq_true_eq]
    omega
  have high : (log.rows.filter (inWindow lo hi)).filter (fun row => !inWindow lo mid row) =
      log.rows.filter (inWindow mid hi) := by
    rw [List.filter_filter]
    apply List.filter_congr
    intro row _
    rw [Bool.eq_iff_iff]
    simp only [inWindow, Bool.and_eq_true, Bool.not_eq_true', Bool.and_eq_false_iff,
      decide_eq_true_eq, decide_eq_false_iff_not]
    omega
  have parts := List.filter_append_perm (inWindow lo mid) (log.rows.filter (inWindow lo hi))
  rw [low, high] at parts
  simpa [between] using parts.map Prod.snd

theorem mem_between {log : SnapshotLog ι} {lo hi : Int} {row : Int × ι}
    (member : row ∈ log.rows) (above : lo < row.1) (below : row.1 ≤ hi) :
    row.2 ∈ log.between lo hi :=
  List.mem_map.mpr ⟨row,List.mem_filter.mpr ⟨member,by simp [above, below]⟩,rfl⟩

theorem between_ne_nil_iff {log : SnapshotLog ι} {lo hi : Int} :
    log.between lo hi ≠ [] ↔ ∃ row ∈ log.rows, lo < row.1 ∧ row.1 ≤ hi := by
  rw [between, ne_eq, List.map_eq_nil_iff, List.filter_eq_nil_iff]
  simp

end SnapshotLog
