import AnalyzerBridge.Text.Numeral

/-!
What the printing commands write: escapes, and formats with their conversions.
-/

namespace AnalyzerBridge.Command

def bytesOf (s : List Char) : List UInt8 :=
  (String.ofList s).toUTF8.toList

def isOctal (c : Char) : Bool :=
  '0' ≤ c && c ≤ '7'

def octalByte (digits : List Char) : UInt8 :=
  UInt8.ofNat (digits.foldl (fun n c => 8 * n + (c.toNat - 48)) 0)

def escapeByte? : Char → Option UInt8
  | '\\' => some 0x5C
  | 'a' => some 0x07
  | 'b' => some 0x08
  | 'f' => some 0x0C
  | 'n' => some 0x0A
  | 'r' => some 0x0D
  | 't' => some 0x09
  | 'v' => some 0x0B
  | _ => none

/-- What a text with escapes writes, and whether it asks to stop. An octal escape has up to three
digits; where `zeroFirst`, a zero comes before them. -/
def escapes (zeroFirst : Bool) : Nat → List Char → List UInt8 × Bool
  | 0, _ => ([], false)
  | _ + 1, [] => ([], false)
  | fuel + 1, '\\' :: 'c' :: s =>
    if zeroFirst then ([], true)
    else let (bs, stop) := escapes zeroFirst fuel s; (bytesOf ['\\', 'c'] ++ bs, stop)
  | fuel + 1, '\\' :: c :: s =>
    if isOctal c && (!zeroFirst || c == '0') then
      let digits := ((if zeroFirst then s else c :: s).take 3).takeWhile isOctal
      let (bs, stop) := escapes zeroFirst fuel ((if zeroFirst then s else c :: s).drop digits.length)
      (octalByte digits :: bs, stop)
    else
      let (bs, stop) := escapes zeroFirst fuel s
      match escapeByte? c with
      | some b => (b :: bs, stop)
      | none => (bytesOf ['\\', c] ++ bs, stop)
  | fuel + 1, c :: s =>
    let (bs, stop) := escapes zeroFirst fuel s
    (bytesOf [c] ++ bs, stop)

/-- A conversion in a format: how its text is filled up, and the letter. -/
structure Conversion where
  toLeft : Bool
  zeros : Bool
  width : Nat
  letter : Char

def digitsNat (s : List Char) : Nat :=
  (Text.digitsValue? s).getD 0

def scanConversion (s : List Char) : Option (Conversion × List Char) :=
  let isFlag c := c == '-' || c == '0'
  let flags := s.takeWhile isFlag
  let s := s.dropWhile isFlag
  let width := digitsNat (s.takeWhile Char.isDigit)
  match s.dropWhile Char.isDigit with
  | letter :: s => some (⟨flags.contains '-', flags.contains '0', width, letter⟩, s)
  | [] => none

def Conversion.pad (c : Conversion) (bs : List UInt8) : List UInt8 :=
  let filling := c.width - bs.length
  if c.toLeft then bs ++ List.replicate filling 0x20
  else if c.zeros && c.letter == 'd' then List.replicate filling 0x30 ++ bs
  else List.replicate filling 0x20 ++ bs

def argumentInt (s : List Char) : Int :=
  match s with
  | '-' :: s => -(digitsNat (s.takeWhile Char.isDigit) : Int)
  | s => digitsNat (s.takeWhile Char.isDigit)

/-- What a conversion writes for an argument, and whether it asks to stop; `none` if there is no such
conversion. -/
def Conversion.write (c : Conversion) (argument : List Char) : Option (List UInt8 × Bool) :=
  match c.letter with
  | 's' => some (c.pad (bytesOf argument), false)
  | 'b' =>
    let (bs, stop) := escapes true (argument.length + 1) argument
    some (c.pad bs, stop)
  | 'd' => some (c.pad (toString (argumentInt argument)).toUTF8.toList, false)
  | _ => none

/-- One pass over a format: the bytes, the arguments left, how many conversions took one, whether
to stop, and whether all conversions were known. -/
structure Pass where
  bytes : List UInt8
  arguments : List (List Char)
  taken : Nat
  stop : Bool
  known : Bool

/-- Writes a format once, with arguments for its conversions; missing ones are empty. -/
def formatOnce : Nat → List Char → Pass → Pass
  | 0, _, p => p
  | _ + 1, [], p => p
  | fuel + 1, '%' :: '%' :: s, p => formatOnce fuel s { p with bytes := p.bytes ++ [0x25] }
  | fuel + 1, '%' :: s, p =>
    match scanConversion s with
    | none => { p with known := false, stop := true }
    | some (c, s) =>
      match c.write (p.arguments.headD []) with
      | none => { p with known := false, stop := true }
      | some (bs, stop) =>
        let p := { p with bytes := p.bytes ++ bs, arguments := p.arguments.tail, taken := p.taken + 1 }
        if stop then { p with stop := true } else formatOnce fuel s p
  | fuel + 1, '\\' :: c :: s, p =>
    let escape := '\\' :: if isOctal c then c :: (s.take 2).takeWhile isOctal else [c]
    formatOnce fuel (('\\' :: c :: s).drop escape.length)
      { p with bytes := p.bytes ++ (escapes false escape.length escape).1 }
  | fuel + 1, c :: s, p => formatOnce fuel s { p with bytes := p.bytes ++ bytesOf [c] }

/-- Writes a format as often as its arguments ask for: the bytes, and whether all went well. -/
def format : Nat → List Char → List (List Char) → List UInt8 × Bool
  | 0, _, _ => ([], true)
  | fuel + 1, text, arguments =>
    let p := formatOnce (text.length + 1) text ⟨[], arguments, 0, false, true⟩
    if p.stop || p.taken = 0 || p.arguments.isEmpty then (p.bytes, p.known)
    else let (bs, known) := format fuel text p.arguments; (p.bytes ++ bs, known)

end AnalyzerBridge.Command
