import Mathlib.Algebra.Order.Ring.Rat
import Mathlib.Tactic.Common

/-!
The window size a DML consumer asks for (`_AdaptiveSnapshotWindow`): halved after an
empty, slow or large listen, doubled after a fast and small one that filled it.
-/
namespace CdcWindow

def adaptiveInitialMaxSnapshots : Int := 8
def adaptiveTargetRows : Int := 2048
def adaptiveTargetListenMs : ℚ := 150
def adaptiveFastListenMs : ℚ := 75
def adaptiveLargeBatchRows : Int := 8192

structure AdaptiveWindow where
  ceiling : Int
  current : Int
  deriving DecidableEq

def AdaptiveWindow.new (ceiling : Int) : AdaptiveWindow where
  ceiling := max 1 ceiling
  current := min (max 1 ceiling) adaptiveInitialMaxSnapshots

def AdaptiveWindow.observeEmpty (window : AdaptiveWindow) : AdaptiveWindow :=
  { window with current := max 1 (window.current / 2) }

def AdaptiveWindow.observeBatch (window : AdaptiveWindow) (rowCount snapshotSpan : Int)
    (listenElapsedMs : ℚ) : AdaptiveWindow :=
  if listenElapsedMs ≥ adaptiveTargetListenMs ∨ rowCount ≥ adaptiveLargeBatchRows then
    { window with current := max 1 (window.current / 2) }
  else if snapshotSpan ≥ window.current ∧ rowCount ≤ adaptiveTargetRows / 2 ∧
      listenElapsedMs ≤ adaptiveFastListenMs then
    { window with
      current := min window.ceiling (max (window.current + 1) (window.current * 2)) }
  else window

end CdcWindow
