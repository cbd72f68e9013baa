import AnalyzerBridge.Power

/-!
Finite numbers of the binary64 format, in exact integer arithmetic. `ofRatio` rounds a quotient to
the nearest such number, ties to the even significand; products and quotients go through it.
-/

namespace AnalyzerBridge

/-- A finite binary64 number: `significand · 2 ^ exponent` with a sign. Zero keeps its sign. -/
structure Binary64 where
  negative : Bool
  significand : Nat
  exponent : Int
deriving DecidableEq, Repr

namespace Binary64

/-- The least exponent, that of the numbers next to zero. -/
def minExponent : Int := -1074

def maxExponent : Int := 971

/-- `n / d`, rounded to the nearest integer, ties to even. -/
def roundDiv (n d : Nat) : Nat :=
  let q := n / d
  let r := n % d
  if 2 * r > d ∨ (2 * r = d ∧ q % 2 = 1) then q + 1 else q

/-- `n · 2 ^ e` as a fraction. -/
def scaled (n : Nat) (e : Int) : Nat × Nat :=
  if 0 ≤ e then (n * twoTo e.toNat, 1) else (n, twoTo (-e).toNat)

/-- The exponent at which `n / d` has a significand of 53 bits, or the least exponent. -/
def exponentOf (n d : Nat) : Int :=
  let guess : Int := (Nat.log2 n : Int) - (Nat.log2 d : Int) - 52
  let (n', d') := scaled n (-guess)
  let fine := if n' < twoTo 52 * (d * d') then guess - 1 else guess
  max fine minExponent

/-- The magnitude nearest to `n / d`, ties to even; `none` beyond the range. -/
def ofRatio (n d : Nat) : Option (Nat × Int) :=
  if n = 0 then some (0, minExponent)
  else
    let e := exponentOf n d
    let (n', d') := scaled n (-e)
    let m := roundDiv n' (d * d')
    let (m, e) := if m = twoTo 53 then (twoTo 52, e + 1) else (m, e)
    if e > maxExponent then none else some (m, e)

def mul (a b : Nat × Int) : Option (Nat × Int) :=
  let (n, d) := scaled (a.1 * b.1) (a.2 + b.2)
  ofRatio n d

def div (a b : Nat × Int) : Option (Nat × Int) :=
  let (n, d) := scaled a.1 (a.2 - b.2)
  ofRatio n (d * b.1)

def ofNat (n : Nat) : Option (Nat × Int) :=
  ofRatio n 1

/-- A power of ten with an exponent up to 308, rounded. -/
def powTen (k : Nat) : Nat × Int :=
  (ofNat (tenTo k)).getD (0, minExponent)

end Binary64

end AnalyzerBridge
