import AnalyzerBridge.Text.Numeral
import Mathlib.Data.List.Basic

/-! Numerals inside a text. Digits end where something else begins, and with or without zeros in front
they tell their number. -/
namespace AnalyzerBridge.Text

variable {s t ds es : List Char} {c : Char} {width m n : Nat}

/-- A text does not begin with a digit. -/
def Undigited (s : List Char) : Prop :=
  ∀ c ∈ s.head?, c.isDigit = false

theorem undigited_cons (h : c.isDigit = false) : Undigited (c :: s) := by
  rintro d hd
  cases hd
  exact h

theorem takeWhile_digits (hd : ∀ c ∈ ds, c.isDigit = true) (hs : Undigited s) :
    (ds ++ s).takeWhile Char.isDigit = ds := by
  rw [List.takeWhile_append_of_pos hd]
  cases s with
  | nil => rw [List.takeWhile_nil, List.append_nil]
  | cons c s => rw [List.takeWhile_cons_of_neg (by simp [hs c rfl]), List.append_nil]

/-- Digits that nothing but other characters follow are read back. -/
theorem digits_append_inj (hd : ∀ c ∈ ds, c.isDigit = true) (he : ∀ c ∈ es, c.isDigit = true)
    (hs : Undigited s) (ht : Undigited t) (h : ds ++ s = es ++ t) : ds = es ∧ s = t := by
  have hdigits : ds = es := by rw [← takeWhile_digits hd hs, h, takeWhile_digits he ht]
  subst hdigits
  exact ⟨rfl, List.append_cancel_left h⟩

theorem isDigit_of_mem_toDigits (h : c ∈ Nat.toDigits 10 n) : c.isDigit = true :=
  Nat.isDigit_of_mem_toDigits (by decide) (by decide) h

theorem toDigits_inj : Nat.toDigits 10 m = Nat.toDigits 10 n ↔ m = n := by
  constructor
  · intro h
    rw [← Nat.ofDigitChars_ten_toDigits (n := m), h, Nat.ofDigitChars_ten_toDigits]
  · rintro rfl
    rfl

theorem toList_padded : (padded width n).toList =
    List.replicate (width - (Nat.toDigits 10 n).length) '0' ++ Nat.toDigits 10 n := by
  rw [padded, padLeft, String.toList_append, String.toList_ofList, Nat.toString_eq_repr,
    Nat.toList_repr, ← String.length_toList, Nat.toList_repr]

theorem isDigit_of_mem_padded (h : c ∈ (padded width n).toList) : c.isDigit = true := by
  rw [toList_padded, List.mem_append] at h
  rcases h with h | h
  · rw [List.eq_of_mem_replicate h]
    rfl
  · exact isDigit_of_mem_toDigits h

/-- Zeros in front do not count. -/
theorem ofDigitChars_padded : Nat.ofDigitChars 10 (padded width n).toList 0 = n := by
  rw [toList_padded]
  induction width - (Nat.toDigits 10 n).length with
  | zero => exact Nat.ofDigitChars_ten_toDigits
  | succ k ih =>
    rw [List.replicate_succ, List.cons_append, Nat.ofDigitChars_cons]
    exact ih

theorem padded_inj : (padded width m).toList = (padded width n).toList ↔ m = n := by
  constructor
  · intro h
    have hm : Nat.ofDigitChars 10 (padded width m).toList 0 = m := ofDigitChars_padded
    rw [← hm, h, ofDigitChars_padded]
  · rintro rfl
    rfl

end AnalyzerBridge.Text
