import AnalyzerBridge.Binary64.Basic
import AnalyzerBridge.Text.Numeral

/-!
The text of a binary64 number: the fewest decimal digits that read back as it, nearest first. Small
and large magnitudes are written with an exponent.
-/

namespace AnalyzerBridge.Binary64

/-- The real numbers that round to a magnitude, in quarters of its last place: from `low` to
`high`, ends included if `closed`. -/
structure Interval where
  low : Nat
  high : Nat
  closed : Bool

/-- The interval of `m · 2 ^ e`. Below a power of two the numbers are twice as dense. -/
def interval (m : Nat) (e : Int) : Interval where
  low := if m = twoTo 52 ∧ e > minExponent then 4 * m - 1 else 4 * m - 2
  high := 4 * m + 2
  closed := m % 2 = 0

/-- Is `x / y` in the interval, measured with the unit `n / d`? -/
def Interval.holds (i : Interval) (n d x y : Nat) : Bool :=
  let v := x * d
  let u := n * y
  if i.closed then i.low * u ≤ v && v ≤ i.high * u else i.low * u < v && v < i.high * u

/-- The least `k` from the second argument on with `n · 10 ^ k ≥ d`. -/
def leastPower (n d : Nat) : Nat → Nat → Nat
  | 0, k => k
  | fuel + 1, k => if n * tenTo k ≥ d then k else leastPower n d fuel (k + 1)

/-- The place of the first digit of `n / d`, which is not zero. No binary64 number needs more than
324 places after the point. -/
def leadingPlace (n d : Nat) : Int :=
  if n ≥ d then ((toString (n / d)).length : Int) - 1 else -(leastPower n d 324 1 : Int)

/-- A decimal: digits as a number, and the place of the last one. -/
structure Decimal where
  digits : Nat
  place : Int

/-- The better of the two neighbours of a magnitude with the last digit at `place`, if one of them
reads back. -/
def neighbour? (i : Interval) (m : Nat) (n d : Nat) (place : Int) : Option Decimal :=
  let (x, y) := if 0 ≤ place then (tenTo place.toNat, 1) else (1, tenTo (-place).toNat)
  -- the value is 4·m·n / d, and one step of the grid is x / y
  let value := 4 * m * n * y
  let grid := d * x
  let below := value / grid
  let rest := value % grid
  let down := i.holds n d (below * x) y
  let up := i.holds n d ((below + 1) * x) y
  if down && (!up || 2 * rest < grid || (2 * rest = grid && below % 2 = 0)) then some ⟨below, place⟩
  else if up then some ⟨below + 1, place⟩
  else none

/-- The first grid from `place` down that has a neighbour. -/
def firstNeighbour (i : Interval) (m n d : Nat) : Nat → Int → Decimal
  | 0, place => ⟨0, place⟩
  | fuel + 1, place => (neighbour? i m n d place).getD (firstNeighbour i m n d fuel (place - 1))

/-- The shortest decimal that reads back as `m · 2 ^ e`. Seventeen digits always read back. -/
def shortest (m : Nat) (e : Int) : Decimal :=
  let (n, d) := scaled 1 (e - 2)
  firstNeighbour (interval m e) m n d 17 (leadingPlace (4 * m * n) d)

/-- Zeros at the end of the digits go into the place. -/
def Decimal.strip : Nat → Decimal → Decimal
  | 0, x => x
  | fuel + 1, x =>
    if x.digits % 10 = 0 ∧ x.digits ≠ 0 then strip fuel ⟨x.digits / 10, x.place + 1⟩ else x

/-- A decimal is written out if its first digit stands between these places, else with an exponent. -/
def plainPlaces : Int × Int := (-5, 15)

/-- The text of a decimal. Written out, it has at least one digit on each side of the point. -/
def Decimal.text (x : Decimal) : String :=
  let digits := toString x.digits
  let first := x.place + digits.length - 1
  if plainPlaces.1 ≤ first ∧ first ≤ plainPlaces.2 then
    if 0 ≤ x.place then digits ++ "".pushn '0' x.place.toNat ++ ".0"
    else if 0 ≤ first then
      String.ofList (digits.toList.take (first.toNat + 1)) ++ "." ++
        String.ofList (digits.toList.drop (first.toNat + 1))
    else "0." ++ "".pushn '0' (-first - 1).toNat ++ digits
  else
    let mantissa := match digits.toList with
      | [d] => String.ofList [d]
      | d :: ds => String.ofList (d :: '.' :: ds)
      | [] => ""
    mantissa ++ "e" ++ (if first < 0 then "-" else "+") ++ toString first.natAbs

def text (x : Binary64) : String :=
  (if x.negative then "-" else "") ++
    if x.significand = 0 then "0.0" else ((shortest x.significand x.exponent).strip 400).text

end AnalyzerBridge.Binary64
