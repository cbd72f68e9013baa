import AnalyzerBridge.Binary64.Shortest
import AnalyzerBridge.Json.Basic

/-!
Writing JSON: `compact` puts no space anywhere, `pretty` puts each item and member on a line of its
own, two spaces deeper than its bracket.
-/

namespace AnalyzerBridge.Json

/-- The hexadecimal digits of a control character's escape. -/
def controlDigits (c : Char) : List Char :=
  (if c.toNat < 0x10 then ['0'] else []) ++ Nat.toDigits 16 c.toNat

def writeChar (c : Char) : List Char :=
  if c = '"' then ['\\', '"']
  else if c = '\\' then ['\\', '\\']
  else if c = '\x08' then ['\\', 'b']
  else if c = '\x0c' then ['\\', 'f']
  else if c = '\n' then ['\\', 'n']
  else if c = '\r' then ['\\', 'r']
  else if c = '\t' then ['\\', 't']
  else if c.toNat < 0x20 then ['\\', 'u', '0', '0'] ++ controlDigits c
  else [c]

def writeText (s : String) : List Char :=
  '"' :: s.toList.flatMap writeChar ++ ['"']

def writeNumber : Number → List Char
  | .int n => (toString n).toList
  | .real x => x.text.toList

/-- A value that holds no other value. -/
def writeScalar : Json → List Char
  | .null => ['n', 'u', 'l', 'l']
  | .bool true => ['t', 'r', 'u', 'e']
  | .bool false => ['f', 'a', 'l', 's', 'e']
  | .number n => writeNumber n
  | .text s => writeText s
  | .list _ | .object _ => []

mutual

/-- The value on one line, without spaces. -/
def writeCompact : Json → List Char
  | .list items => '[' :: writeItems true items
  | .object members => '{' :: writeMembers true members
  | v => writeScalar v

/-- The items from one of them on, and the closing bracket. -/
def writeItems (first : Bool) : List Json → List Char
  | [] => [']']
  | v :: rest => (if first then [] else [',']) ++ writeCompact v ++ writeItems false rest

def writeMembers (first : Bool) : List (String × Json) → List Char
  | [] => ['}']
  | (k, v) :: rest =>
    (if first then [] else [',']) ++ writeText k ++ ':' :: writeCompact v ++ writeMembers false rest

end

/-- A new line that is `depth` steps deep. -/
def newLine (depth : Nat) : List Char :=
  '\n' :: List.replicate (2 * depth) ' '

mutual

/-- The value over several lines, its closing bracket being `depth` steps deep. -/
def writePretty (depth : Nat) : Json → List Char
  | .list [] => ['[', ']']
  | .list items => '[' :: prettyItems depth true items
  | .object [] => ['{', '}']
  | .object members => '{' :: prettyMembers depth true members
  | v => writeScalar v

def prettyItems (depth : Nat) (first : Bool) : List Json → List Char
  | [] => newLine depth ++ [']']
  | v :: rest =>
    (if first then [] else [',']) ++ newLine (depth + 1) ++ writePretty (depth + 1) v ++
      prettyItems depth false rest

def prettyMembers (depth : Nat) (first : Bool) : List (String × Json) → List Char
  | [] => newLine depth ++ ['}']
  | (k, v) :: rest =>
    (if first then [] else [',']) ++ newLine (depth + 1) ++ writeText k ++
      ':' :: ' ' :: writePretty (depth + 1) v ++ prettyMembers depth false rest

end

def compact (v : Json) : String :=
  String.ofList (writeCompact v)

def pretty (v : Json) : String :=
  String.ofList (writePretty 0 v)

end AnalyzerBridge.Json
