import AnalyzerBridge.Json.Fault

/-!
The tokens of a JSON text: spaces, words, numbers and texts. Each is scanned in two ways. Reading
gives the value; skipping only checks the spelling, so it accepts numbers of any size and
surrogates without a partner.
-/

namespace AnalyzerBridge.Json

def isSpace (c : Char) : Bool :=
  c == ' ' || c == '\t' || c == '\n' || c == '\r'

/-- The text from its first character that is no space. -/
def skipSpace (s : List Char) : List Char :=
  s.dropWhile isSpace

def scanWord : List Char → List Char → Except Fault (List Char)
  | [], s => .ok s
  | _ :: _, [] => .error .valueEnds
  | e :: es, c :: s => if c = e then scanWord es s else .error .badWord

def digit (c : Char) : Nat :=
  c.toNat - '0'.toNat

/-- Takes digits into a significand as long as it fits 64 bits, and gives the digits left over. -/
def absorb : Nat → List Char → Nat × List Char
  | n, [] => (n, [])
  | n, c :: s => if 10 * n + digit c < twoTo 64 then absorb (10 * n + digit c) s else (n, c :: s)

/-- Divides by 10 ^ 308 until the rest of the exponent is in the table of powers. Two steps bring
any 64-bit significand to zero. -/
def descend : Nat → Nat × Int → Nat → Option (Nat × Int)
  | 0, x, _ => some (0, x.2)
  | fuel + 1, x, k =>
    if k ≤ 308 then Binary64.div x (Binary64.powTen k)
    else match Binary64.div x (Binary64.powTen 308) with
      | some y => if y.1 = 0 then some y else descend fuel y (k - 308)
      | none => none

/-- The magnitude of `n · 10 ^ e`, rounded first as an integer and then at each power. -/
def magnitude (n : Nat) (e : Int) : Option (Nat × Int) :=
  match Binary64.ofNat n with
  | none => none
  | some x =>
    if x.1 = 0 then some x
    else if 0 ≤ e then if e ≤ 308 then Binary64.mul x (Binary64.powTen e.toNat) else none
    else descend 4 x (-e).toNat

/-- A number that is not written as an integer, or does not fit one. -/
def realOf (negative : Bool) (n : Nat) (e : Int) : Except Fault Number :=
  match magnitude n e with
  | none => .error .numberTooLarge
  | some (m, e) => .ok (.real ⟨negative, m, e⟩)

/-- An integer of at most 64 bits. Minus zero, and negative ones that do not fit, become reals. -/
def integerOf (negative : Bool) (n : Nat) : Except Fault Number :=
  if negative then if 0 < n ∧ n ≤ twoTo 63 then .ok (.int (-n)) else realOf true n 0
  else .ok (.int n)

/-- The parts of a number: digits before the point, digits after it, and the exponent with its sign
(`true` for minus). -/
structure Spelling where
  whole : List Char
  fraction : Option (List Char)
  exponent : Option (Bool × List Char)

/-- The greatest exponent that is taken at its value. -/
def maxExponent : Nat := twoTo 31 - 1

def Spelling.number (negative : Bool) (p : Spelling) : Except Fault Number :=
  let (n, dropped) := absorb 0 p.whole
  let (n, taken) := match p.fraction with
    | none => (n, 0)
    | some ds => let (n, left) := absorb n ds; (n, ds.length - left.length)
  let place : Int := dropped.length - taken
  match p.exponent with
  | none =>
    if p.fraction.isNone && dropped.isEmpty then integerOf negative n else realOf negative n place
  | some (minus, ds) =>
    let e := ds.foldl (fun e c => 10 * e + digit c) 0
    if e > maxExponent then
      if n ≠ 0 ∧ minus = false then .error .numberTooLarge
      else .ok (.real ⟨negative, 0, Binary64.minExponent⟩)
    else realOf negative n (if minus then place - e else place + e)

/-- Scans at least one digit; `atEnd` is the fault if the text ends instead. -/
def scanDigits (atEnd : Fault) (s : List Char) : Except Fault (List Char × List Char) :=
  match s.takeWhile Char.isDigit, s with
  | [], [] => .error atEnd
  | [], _ => .error .badNumber
  | ds, s => .ok (ds, s.dropWhile Char.isDigit)

/-- Scans the digits before the point: no zero before another digit. -/
def scanWhole (atEnd : Fault) (s : List Char) : Except Fault (List Char × List Char) :=
  match s with
  | '0' :: c :: rest => if c.isDigit then .error .badNumber else .ok (['0'], c :: rest)
  | s => scanDigits atEnd s

/-- Scans the exponent after its letter. -/
def scanExponent (atEnd : Fault) (s : List Char) : Except Fault ((Bool × List Char) × List Char) :=
  match s with
  | '-' :: s => do let (ds, s) ← scanDigits atEnd s; .ok ((true, ds), s)
  | '+' :: s => do let (ds, s) ← scanDigits atEnd s; .ok ((false, ds), s)
  | s => do let (ds, s) ← scanDigits atEnd s; .ok ((false, ds), s)

/-- Scans a number after its minus sign, if any. -/
def scanSpelling (atEnd : Fault) (s : List Char) : Except Fault (Spelling × List Char) := do
  let (whole, s) ← scanWhole atEnd s
  let (fraction, s) ← match s with
    | '.' :: s => do let (ds, s) ← scanDigits atEnd s; .ok (some ds, s)
    | s => .ok (none, s)
  match s with
  | c :: s' =>
    if c = 'e' ∨ c = 'E' then do
      let (exponent, s) ← scanExponent atEnd s'
      .ok (⟨whole, fraction, some exponent⟩, s)
    else .ok (⟨whole, fraction, none⟩, s)
  | [] => .ok (⟨whole, fraction, none⟩, [])

/-- Reads a number after its minus sign, if any. -/
def readNumber (negative : Bool) (s : List Char) : Except Fault (Number × List Char) := do
  let (spelling, s) ← scanSpelling .valueEnds s
  let n ← spelling.number negative
  .ok (n, s)

def skipNumber (s : List Char) : Except Fault (List Char) := do
  let (_, s) ← scanSpelling .badNumber s
  .ok s

def hexDigit? (c : Char) : Option Nat :=
  if c.isDigit then some (digit c)
  else if 'a' ≤ c ∧ c ≤ 'f' then some (c.toNat - 'a'.toNat + 10)
  else if 'A' ≤ c ∧ c ≤ 'F' then some (c.toNat - 'A'.toNat + 10)
  else none

/-- The character of a short escape. -/
def escaped? (c : Char) : Option Char :=
  if c = '"' ∨ c = '\\' ∨ c = '/' then some c
  else if c = 'b' then some '\x08'
  else if c = 'f' then some '\x0c'
  else if c = 'n' then some '\n'
  else if c = 'r' then some '\r'
  else if c = 't' then some '\t'
  else none

/-- The fault of a bad digit after `count` good ones: an escape that the text cannot hold, since
fewer than four bytes are left, is cut short. -/
def hexFault (count : Nat) (s : List Char) : Fault :=
  if (s.take 4).foldl (fun n c => n + c.utf8Size) count < 4 then .textEnds else .badEscape

/-- Where the scanner of a text stands. The first surrogate of a pair waits for the second. -/
inductive TextState where
  | plain
  | escape
  | hex (first : Option Nat) (count value : Nat)
  | pair (first : Nat)
  | pairEscape (first : Nat)
deriving DecidableEq, Repr

/-- The state and the character, if one is finished, after the four digits of an escape. -/
def finishHex (first : Option Nat) (n : Nat) : Except Fault (TextState × Option Char) :=
  match first with
  | none =>
    if 0xDC00 ≤ n ∧ n ≤ 0xDFFF then .error .loneSurrogate
    else if 0xD800 ≤ n ∧ n ≤ 0xDBFF then .ok (.pair n, none)
    else .ok (.plain, some (Char.ofNat n))
  | some m =>
    if 0xDC00 ≤ n ∧ n ≤ 0xDFFF then
      .ok (.plain, some (Char.ofNat (0x10000 + (m - 0xD800) * 0x400 + (n - 0xDC00))))
    else .error .loneSurrogate

/-- Reads a text up to its closing quote, `done` being what was read before, last first. -/
def readTextFrom : TextState → List Char → List Char → Except Fault (List Char × List Char)
  | _, _, [] => .error .textEnds
  | .plain, done, c :: s =>
    if c = '"' then .ok (done.reverse, s)
    else if c = '\\' then readTextFrom .escape done s
    else if c.toNat < 0x20 then .error .controlCharacter
    else readTextFrom .plain (c :: done) s
  | .escape, done, c :: s =>
    match escaped? c with
    | some d => readTextFrom .plain (d :: done) s
    | none => if c = 'u' then readTextFrom (.hex none 0 0) done s else .error .badEscape
  | .hex first count value, done, c :: s =>
    match hexDigit? c with
    | none => .error (hexFault count (c :: s))
    | some d =>
      if count < 3 then readTextFrom (.hex first (count + 1) (16 * value + d)) done s
      else match finishHex first (16 * value + d) with
        | .error fault => .error fault
        | .ok (state, none) => readTextFrom state done s
        | .ok (state, some e) => readTextFrom state (e :: done) s
  | .pair first, done, c :: s =>
    if c = '\\' then readTextFrom (.pairEscape first) done s else .error .brokenSurrogatePair
  | .pairEscape first, done, c :: s =>
    if c = 'u' then readTextFrom (.hex (some first) 0 0) done s else .error .brokenSurrogatePair

/-- Reads a text after its opening quote. -/
def readText (s : List Char) : Except Fault (String × List Char) := do
  let (cs, s) ← readTextFrom .plain [] s
  .ok (String.ofList cs, s)

def skipTextFrom : TextState → List Char → Except Fault (List Char)
  | _, [] => .error .textEnds
  | .escape, c :: s =>
    if (escaped? c).isSome then skipTextFrom .plain s
    else if c = 'u' then skipTextFrom (.hex none 0 0) s else .error .badEscape
  | .hex _ count _, c :: s =>
    match hexDigit? c with
    | none => .error (hexFault count (c :: s))
    | some _ => skipTextFrom (if count < 3 then .hex none (count + 1) 0 else .plain) s
  | _, c :: s =>
    if c = '"' then .ok s
    else if c = '\\' then skipTextFrom .escape s
    else if c.toNat < 0x20 then .error .controlCharacter
    else skipTextFrom .plain s

def skipText (s : List Char) : Except Fault (List Char) :=
  skipTextFrom .plain s

end AnalyzerBridge.Json
