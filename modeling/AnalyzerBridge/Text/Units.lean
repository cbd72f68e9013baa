/-!
Lengths in UTF-16 code units, in which editors count columns.
-/

namespace AnalyzerBridge.Text

/-- The UTF-16 code units of a character: two from U+10000 on, else one. -/
def charUnits (c : Char) : Nat :=
  if c.toNat < 0x10000 then 1 else 2

/-- The UTF-16 code units of a text. -/
def units : List Char → Nat
  | [] => 0
  | c :: s => charUnits c + units s

@[simp] theorem units_nil : units [] = 0 := rfl

@[simp] theorem units_cons (c : Char) (s : List Char) : units (c :: s) = charUnits c + units s := rfl

theorem units_append (s t : List Char) : units (s ++ t) = units s + units t := by
  induction s with
  | nil => simp
  | cons c s ih => simp [ih, Nat.add_assoc]

theorem charUnits_pos (c : Char) : 0 < charUnits c := by
  unfold charUnits; split <;> omega

/-- How many characters end at or before unit `n`. A unit inside a character counts for that
character's start. -/
def charsWithin : Nat → List Char → Nat
  | _, [] => 0
  | n, c :: s => if n < charUnits c then 0 else 1 + charsWithin (n - charUnits c) s

@[simp] theorem charsWithin_nil (n : Nat) : charsWithin n [] = 0 := rfl

theorem charsWithin_le_length (n : Nat) (s : List Char) : charsWithin n s ≤ s.length := by
  induction s generalizing n with
  | nil => simp
  | cons c s ih =>
    rw [charsWithin, List.length_cons]
    split
    · omega
    · have := ih (n - charUnits c); omega

theorem charsWithin_append_of_lt {n : Nat} {s : List Char} (t : List Char) (h : n < units s) :
    charsWithin n (s ++ t) = charsWithin n s := by
  induction s generalizing n with
  | nil => cases h
  | cons c s ih =>
    rw [List.cons_append, charsWithin, charsWithin]
    by_cases hc : n < charUnits c
    · rw [if_pos hc, if_pos hc]
    · rw [units_cons] at h
      rw [if_neg hc, if_neg hc, ih (by omega)]

theorem charsWithin_append_of_le {n : Nat} {s : List Char} (t : List Char) (h : units s ≤ n) :
    charsWithin n (s ++ t) = s.length + charsWithin (n - units s) t := by
  induction s generalizing n with
  | nil => simp
  | cons c s ih =>
    rw [units_cons] at h
    have hrest : n - charUnits c - units s = n - (charUnits c + units s) := by omega
    rw [List.cons_append, charsWithin, if_neg (by omega), ih (by omega), hrest, units_cons,
      List.length_cons]
    omega

/-- From the end of a text on, all its characters count. -/
theorem charsWithin_of_le {n : Nat} {s : List Char} (h : units s ≤ n) :
    charsWithin n s = s.length := by
  have hs := charsWithin_append_of_le [] h
  rwa [List.append_nil, charsWithin_nil, Nat.add_zero] at hs

/-- Units past the end of a text count as its end. -/
theorem charsWithin_min (n : Nat) (s : List Char) :
    charsWithin (min n (units s)) s = charsWithin n s := by
  rcases Nat.le_total n (units s) with h | h
  · rw [Nat.min_eq_left h]
  · rw [Nat.min_eq_right h, charsWithin_of_le (Nat.le_refl _), charsWithin_of_le h]

/-- Characters of one unit each are as many as their units. -/
theorem units_of_single {s : List Char} (h : ∀ c ∈ s, charUnits c = 1) : units s = s.length := by
  induction s with
  | nil => rfl
  | cons c s ih =>
    obtain ⟨hc, hs⟩ := List.forall_mem_cons.1 h
    rw [units_cons, hc, ih hs, List.length_cons, Nat.add_comm]

theorem charsWithin_of_single {s : List Char} (h : ∀ c ∈ s, charUnits c = 1) (n : Nat) :
    charsWithin n s = min n s.length := by
  induction s generalizing n with
  | nil => exact (Nat.min_zero n).symm
  | cons c s ih =>
    obtain ⟨hc, hs⟩ := List.forall_mem_cons.1 h
    rw [charsWithin, hc, ih hs, List.length_cons]
    split <;> omega

end AnalyzerBridge.Text
