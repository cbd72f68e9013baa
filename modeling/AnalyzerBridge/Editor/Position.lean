import AnalyzerBridge.Json.Basic
import AnalyzerBridge.Power

/-!
Places in a script as editors give them: lines and UTF-16 columns count from 0.
-/

namespace AnalyzerBridge

structure Position where
  line : UInt32
  character : UInt32
deriving DecidableEq, Repr, Inhabited

structure Range where
  start : Position
  stop : Position
deriving DecidableEq, Repr, Inhabited

/-- The sum, or the greatest number of 32 bits if the sum is beyond it. -/
def clampedAdd (a b : UInt32) : UInt32 :=
  UInt32.ofNat (min (a.toNat + b.toNat) (twoTo 32 - 1))

/-- The range of so many units on the line that an analyzer counts as `line`. Line 0 is taken for
line 1. -/
def Range.onLine (line column width : UInt32) : Range :=
  let line := line - min line 1
  ⟨⟨line, column⟩, ⟨line, clampedAdd column width⟩⟩

theorem toNat_clampedAdd (a b : UInt32) :
    (clampedAdd a b).toNat = min (a.toNat + b.toNat) (twoTo 32 - 1) :=
  UInt32.toNat_ofNat_of_lt' (Nat.lt_of_le_of_lt (Nat.min_le_right _ _) (by decide))

/-- Lines count from 0 in a range. -/
theorem Range.toNat_line_onLine (line column width : UInt32) :
    (Range.onLine line column width).start.line.toNat = line.toNat - 1 := by
  have hone : (1 : UInt32).toNat = 1 := rfl
  show (line - if line ≤ 1 then line else 1).toNat = line.toNat - 1
  split
  · rename_i h
    rw [UInt32.le_iff_toNat_le] at h
    rw [UInt32.toNat_sub_of_le _ _ (UInt32.le_refl line)]
    omega
  · rename_i h
    rw [UInt32.not_le] at h
    rw [UInt32.toNat_sub_of_le _ _ (UInt32.le_of_lt h), hone]

/-- Line 0 is taken for line 1. -/
theorem Range.onLine_zero (column width : UInt32) :
    Range.onLine 0 column width = Range.onLine 1 column width := by
  have hline : (0 : UInt32) - min 0 1 = 1 - min 1 1 := by decide
  simp only [Range.onLine, hline]

def Position.toJson (p : Position) : Json :=
  .object [("line", .nat p.line.toNat), ("character", .nat p.character.toNat)]

def Range.toJson (r : Range) : Json :=
  .object [("start", r.start.toJson), ("end", r.stop.toJson)]

end AnalyzerBridge
