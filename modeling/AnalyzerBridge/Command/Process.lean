import AnalyzerBridge.Run.Progress
import AnalyzerBridge.Command.Printing

/-!
The state of a program that runs: what it has read and written, when, and where its descriptors
lead. Time is counted in milliseconds and passes only while a program sleeps.
-/

namespace AnalyzerBridge.Command

open Run

/-- Where a descriptor leads: to the pipe of the run, to nowhere, or it is closed. -/
inductive Stream where
  | pipe
  | nowhere
  | closed
deriving DecidableEq, Repr

/-- The state of a program. Output is kept last byte first. -/
structure Process where
  clock : Nat
  input : List UInt8
  /-- When the input that is left fitted into the pipe, or nobody could read it any more. -/
  inputTaken : Option Nat
  output : List UInt8
  outputClosed : Option Nat
  standardInput : Stream
  standardOutput : Stream
  standardError : Stream
  bindings : List (List Char × List Char)
  name : List Char
  arguments : List (List Char)
  status : Nat
  exit : Option Exit

namespace Process

def pipeSize : Nat := 65536

/-- Later than any run takes. -/
def forever : Nat := tenTo 15

variable (p : Process)

/-- Notes whether the input that is left fits into the pipe. -/
def noteInput : Process :=
  if p.inputTaken.isNone && (p.input.drop pipeSize).isEmpty then
    { p with inputTaken := some p.clock }
  else p

/-- A program with a name, arguments and input, before its first step. -/
def start (name : List Char) (arguments : List (List Char)) (input : List UInt8) : Process :=
  noteInput {
    clock := 0, input := input, inputTaken := none, output := [], outputClosed := none,
    standardInput := .pipe, standardOutput := .pipe, standardError := .nowhere,
    bindings := [], name := name, arguments := arguments, status := 0, exit := none }

def withStatus (n : Nat) : Process :=
  { p with status := n }

def writeTo (s : Stream) (bytes : List UInt8) : Process :=
  if s = .pipe then { p with output := bytes.reverse ++ p.output } else p

/-- Writes bytes to the standard output; that fails if it is closed. -/
def write (bytes : List UInt8) : Process :=
  if p.standardOutput = .closed && !bytes.isEmpty then p.withStatus 1
  else (p.writeTo p.standardOutput bytes).withStatus 0

def complain (line : String) : Process :=
  p.writeTo p.standardError (line ++ "\n").toUTF8.toList

def readable : List UInt8 :=
  if p.standardInput = .pipe then p.input else []

def takeInput (n : Nat) : Process :=
  if p.standardInput = .pipe then { p with input := p.input.drop n }.noteInput else p

def sleep (milliseconds : Nat) : Process :=
  { p with clock := p.clock + milliseconds }

def quit (e : Exit) : Process :=
  { p with exit := some e }

/-- Notes descriptors of the run that no longer lead to its pipes, for the rest of the run. -/
def noteClosed : Process :=
  let p := if p.standardInput = .pipe || p.inputTaken.isSome then p
    else { p with inputTaken := some p.clock }
  if p.standardOutput = .pipe || p.standardError = .pipe || p.outputClosed.isSome then p
  else { p with outputClosed := some p.clock }

/-- The value of a variable; one that is not set is empty. -/
def value (name : List Char) : List Char :=
  (p.bindings.lookup name).getD []

def set (name value : List Char) : Process :=
  { p with bindings := (name, value) :: p.bindings.filter (·.1 ≠ name) }

/-- When the program left, and how. One that sleeps for ever never does. -/
def left : Option (Nat × Exit) :=
  if p.clock < forever then p.exit.map (p.clock, ·) else none

/-- What came about while the program ran. The output ends when it is closed, or with the program,
and so does the reading of input. -/
def timeline : Timeline where
  written := p.inputTaken <|> p.left.map (·.1)
  output := (p.outputClosed <|> p.left.map (·.1)).map (·, p.output.reverse)
  exit := p.left

end Process

end AnalyzerBridge.Command
