import AnalyzerBridge.Text.Numeral

/-!
Bytecode listings: the instructions compiled for one function, and how an instruction reads.
-/

namespace AnalyzerBridge

/-- How wide the operand of an instruction is encoded. -/
inductive OperandSize where
  | simple
  | long
  | short
deriving DecidableEq, Repr, Inhabited

inductive Direction where
  | forward
  | backward
deriving DecidableEq, Repr, Inhabited

/-- A variable that a closure captures: one of the enclosing function's locals, or one that this
function captured itself. -/
structure Capture where
  index : UInt32
  isLocal : Bool
deriving DecidableEq, Repr, Inhabited

/-- What an instruction works on. -/
inductive Operand where
  | jump (target : UInt32) (offset : Int64) (direction : Direction)
  | closure (captures : List Capture)
deriving DecidableEq, Repr, Inhabited

/-- One instruction, with the place in the script that it was compiled from. -/
structure Instruction where
  address : UInt32
  mnemonic : String
  line : UInt32
  column : UInt32
  token : String
  size : OperandSize
  operand : Option Operand
deriving DecidableEq, Repr, Inhabited

/-- The instructions of one function. -/
structure Listing where
  id : UInt32
  name : String
  instructions : List Instruction
deriving DecidableEq, Repr, Inhabited

/-- What a size adds to the mnemonic. -/
def OperandSize.ending : OperandSize → String
  | simple => ""
  | long => "_LONG"
  | short => "_SHORT"

def Direction.sign : Direction → String
  | forward => "+"
  | backward => "-"

def Capture.describe (c : Capture) : String :=
  (if c.isLocal then "local " else "upvalue ") ++ toString c.index.toNat

/-- What an operand adds to the text of an instruction. -/
def Operand.describe : Operand → String
  | jump target offset direction =>
    " " ++ direction.sign ++ toString offset.toInt.natAbs ++ " -> " ++ Text.padded 4 target.toNat
  | closure [] => ""
  | closure captures => " [" ++ String.intercalate ", " (captures.map Capture.describe) ++ "]"

/-- The mnemonic with the ending of the size, unless it has it already. -/
def Instruction.sizedMnemonic (i : Instruction) : String :=
  if i.size.ending.toList.isSuffixOf i.mnemonic.toList then i.mnemonic
  else i.mnemonic ++ i.size.ending

def Instruction.describe (i : Instruction) : String :=
  i.sizedMnemonic ++ match i.operand with
    | none => ""
    | some operand => operand.describe

/-- Listings in ascending order of the number under which each is kept. -/
structure Listings where
  entries : List (UInt32 × Listing)
deriving DecidableEq, Repr, Inhabited

namespace Listings

def empty : Listings := ⟨[]⟩

/-- Keeps a listing under a number, in place of an earlier one. -/
def insertEntry (key : UInt32) (l : Listing) : List (UInt32 × Listing) → List (UInt32 × Listing)
  | [] => [(key, l)]
  | (k, m) :: rest =>
    if key < k then (key, l) :: (k, m) :: rest
    else if key = k then (key, l) :: rest
    else (k, m) :: insertEntry key l rest

def insert (ls : Listings) (key : UInt32) (l : Listing) : Listings :=
  ⟨insertEntry key l ls.entries⟩

def find? (ls : Listings) (key : UInt32) : Option Listing :=
  ls.entries.lookup key

/-- Listings kept under their own numbers; of those with one number, the last. -/
def ofList (ls : List Listing) : Listings :=
  ls.foldl (fun kept l => kept.insert l.id l) empty

end Listings

end AnalyzerBridge
