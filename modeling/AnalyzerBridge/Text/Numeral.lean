import AnalyzerBridge.Power

/-!
Decimal numerals: reading one within a bound, and writing one with a least width.
-/

namespace AnalyzerBridge.Text

/-- The value of a row of decimal digits, or `none` if some character is no digit. -/
def digitsValue? (s : List Char) : Option Nat :=
  s.foldlM (fun n c => if c.isDigit then some (10 * n + (c.toNat - '0'.toNat)) else none) 0

/-- Reads an unsigned numeral below `bound`: a plus sign if any, then at least one digit. -/
def numeral? (bound : Nat) (s : List Char) : Option Nat :=
  let digits := match s with
    | '+' :: rest => rest
    | s => s
  match digits with
  | [] => none
  | digits => (digitsValue? digits).filter (· < bound)

/-- Fills a text up on the left to `width` characters. -/
def padLeft (width : Nat) (c : Char) (s : String) : String :=
  String.ofList (List.replicate (width - s.length) c) ++ s

/-- A number with at least `width` digits. -/
def padded (width n : Nat) : String :=
  padLeft width '0' (toString n)

/-- The value of digits is that of core. -/
theorem digitsValue?_eq {s : List Char} (h : ∀ c ∈ s, c.isDigit = true) :
    digitsValue? s = some (Nat.ofDigitChars 10 s 0) := by
  suffices hfold : ∀ n, s.foldlM (fun n c => if c.isDigit then some (10 * n + (c.toNat - '0'.toNat))
      else none) n = some (Nat.ofDigitChars 10 s n) from hfold 0
  induction s with
  | nil => exact fun n => rfl
  | cons c s ih =>
    intro n
    rw [List.foldlM_cons, if_pos (h c (by simp)), Nat.ofDigitChars_cons]
    exact ih (fun c hc => h c (List.mem_cons_of_mem _ hc)) _

/-- A number is read back from its digits. -/
theorem numeral?_toDigits {bound n : Nat} (h : n < bound) :
    numeral? bound (Nat.toDigits 10 n) = some n := by
  have hdigits : ∀ c ∈ Nat.toDigits 10 n, c.isDigit = true :=
    fun c hc => Nat.isDigit_of_mem_toDigits (by decide) (by decide) hc
  have hvalue := digitsValue?_eq hdigits
  rw [Nat.ofDigitChars_ten_toDigits] at hvalue
  cases hs : Nat.toDigits 10 n with
  | nil => exact absurd hs Nat.toDigits_ne_nil
  | cons c s =>
    rw [hs] at hdigits hvalue
    have hplus : c ≠ '+' := by
      rintro rfl
      exact absurd (hdigits '+' (by simp)) (by decide)
    simp [numeral?, hplus, hvalue, h]

end AnalyzerBridge.Text
