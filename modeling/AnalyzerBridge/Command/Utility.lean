import AnalyzerBridge.Command.Process
import AnalyzerBridge.Host.Fault
import AnalyzerBridge.Text.Utf8

/-!
The utilities that scripts and settings may name. Each takes its arguments and the state of the
program, and leaves its status there.
-/

namespace AnalyzerBridge.Command

open Run

abbrev Utility := List (List Char) → Process → Process

def joined (words : List (List Char)) : List Char :=
  [' '].intercalate words

namespace Utility

/-- Writes its arguments; in a shell, escapes in them count. -/
def echo (escaped : Bool) : Utility := fun arguments p =>
  let (ends, arguments) := match arguments with
    | ['-', 'n'] :: rest => (false, rest)
    | arguments => (true, arguments)
  let text := joined arguments
  let (bytes, stop) := if escaped then escapes true (text.length + 1) text else (bytesOf text, false)
  p.write (bytes ++ if ends && !stop then [0x0A] else [])

def printf : Utility := fun arguments p =>
  match arguments with
  | [] => p.withStatus 2
  | ['-', '-'] :: text :: rest | text :: rest =>
    let (bytes, known) := format (rest.length + 1) text rest
    let p := p.write bytes
    if known then p else p.withStatus 2

def isOption : List Char → Bool
  | '-' :: _ :: _ => true
  | _ => false

/-- The files that can be read; the others do not exist. -/
def nothingFiles : List String := ["/dev/null"]

/-- The files that stand for the standard input. -/
def inputFiles : List String := ["-", "/dev/stdin", "/dev/fd/0", "/proc/self/fd/0"]

/-- The bytes of a file that a utility reads, or what is wrong with it. -/
def content (p : Process) (file : List Char) : Except Host.Fault (List UInt8 × Process) :=
  let name := String.ofList file
  if inputFiles.contains name && p.standardInput = .closed then .error .denied
  else if inputFiles.contains name then
    .ok (p.readable, p.takeInput p.readable.length)
  else if nothingFiles.contains name then .ok ([], p)
  else if file.all (fun c => c == '/' || c == '.') && !file.isEmpty then .error .isDirectory
  else .error .notFound

/-- The wording of a fault of a file, without the system's number. -/
def faultText : Host.Fault → String
  | .isDirectory => "Is a directory"
  | _ => "No such file or directory"

def catFiles : Utility
  | [], p => p
  | file :: rest, p =>
    match content p file with
    | .ok (bytes, p) =>
      let status := p.status
      let p := p.write bytes
      catFiles rest (if p.status = 0 then p.withStatus status else p)
    | .error f =>
      catFiles rest ((p.complain ("cat: " ++ String.ofList file ++ ": " ++ faultText f)).withStatus 1)

def cat : Utility := fun arguments p =>
  let arguments := arguments.filter (· ≠ ['-', 'u'])
  let p := p.withStatus 0
  match arguments with
  | ['-', '-'] :: files => catFiles (if files.isEmpty then [['-']] else files) p
  | files =>
    if files.any isOption then (p.complain "cat: unrecognized option").withStatus 1
    else catFiles (if files.isEmpty then [['-']] else files) p

def firstLines : Nat → List UInt8 → List UInt8
  | _, [] => []
  | 0, _ => []
  | n + 1, b :: bs => if b = 0x0A then b :: firstLines n bs else b :: firstLines (n + 1) bs

def head : Utility := fun arguments p =>
  let lines (n : List Char) := p.write (firstLines (digitsNat n) p.readable)
  let bytes (n : List Char) := p.write (p.readable.take (digitsNat n))
  let all (p : Process) := p.takeInput p.readable.length
  match arguments with
  | [] => all (lines ['1', '0'])
  | [['-', 'n'], n] => all (lines n)
  | ['-' :: 'n' :: n] => all (lines n)
  | [['-', 'c'], n] => (bytes n).takeInput (digitsNat n)
  | ['-' :: 'c' :: n] => (bytes n).takeInput (digitsNat n)
  | ['-' :: n] => if n.all Char.isDigit then all (lines n) else p.withStatus 1
  | _ => p.withStatus 1

def wc : Utility := fun arguments p =>
  let report (n : Nat) := (p.takeInput p.readable.length).write (toString n ++ "\n").toUTF8.toList
  match arguments with
  | [['-', 'c']] => report p.readable.length
  | [['-', 'l']] => report (p.readable.count 0x0A)
  | _ => p.withStatus 1

/-- The milliseconds of a time in seconds. -/
def milliseconds? (s : List Char) : Option Nat :=
  if s = "infinity".toList ∨ s = "inf".toList then some Process.forever
  else
    let whole := s.takeWhile Char.isDigit
    let (fraction, unit) := match s.dropWhile Char.isDigit with
      | '.' :: rest => (rest.takeWhile Char.isDigit, rest.dropWhile Char.isDigit)
      | rest => ([], rest)
    let thousandths := digitsNat ((fraction ++ ['0', '0', '0']).take 3)
    if whole.isEmpty && fraction.isEmpty || !(unit.isEmpty || unit = ['s']) then none
    else some (1000 * digitsNat whole + thousandths)

def sleep : Utility := fun arguments p =>
  match arguments.mapM milliseconds? with
  | some (t :: ts) => (p.sleep (ts.foldl (· + ·) t)).withStatus 0
  | _ => p.withStatus 1

def signalNumber? (s : List Char) : Option Nat :=
  match Text.digitsValue? s with
  | some n => if s.isEmpty then none else some n
  | none =>
    let name := String.ofList s
    let isIt (known : String) := known = name || known = "SIG" ++ name
    match signalNames.findIdx? isIt with
    | some i => some (i + 1)
    | none => if name = "EXIT" then some 0 else none

/-- The number by which a program knows itself. -/
def processId : Nat := 4242

/-- Sends a signal to some programs; only the sender itself can be named. -/
def send (signal : Nat) (targets : List (List Char)) (p : Process) : Process :=
  if targets.isEmpty then p.withStatus 2
  else if targets.all (fun t => Text.digitsValue? t = some processId) then
    if signal = 0 then p.withStatus 0 else p.quit (.signal signal false)
  else p.withStatus 1

def kill : Utility := fun arguments p =>
  let named (s : List Char) (targets : List (List Char)) :=
    match signalNumber? s with
    | some n => send n targets p
    | none => p.withStatus 2
  match arguments with
  | ['-', 's'] :: s :: targets => named s targets
  | ('-' :: s) :: targets => named s targets
  | targets => send 15 targets p

/-- The number that a text means in a comparison. -/
def comparand? (s : List Char) : Option Int :=
  match s with
  | '-' :: s => (Text.digitsValue? s).map fun n => -(n : Int)
  | s => (Text.digitsValue? s).map fun n => (n : Int)

def compare? (operator : String) (a b : Int) : Option Bool :=
  match operator with
  | "-eq" => some (a == b)
  | "-ne" => some (a != b)
  | "-lt" => some (decide (a < b))
  | "-le" => some (decide (a ≤ b))
  | "-gt" => some (decide (b < a))
  | "-ge" => some (decide (b ≤ a))
  | _ => none

def holds? : List (List Char) → Option Bool
  | [] => some false
  | [['!'], a] => some a.isEmpty
  | ['!'] :: rest => (holds? rest).map (!·)
  | [a] => some (!a.isEmpty)
  | [['-', 'n'], a] => some (!a.isEmpty)
  | [['-', 'z'], a] => some a.isEmpty
  | [['-', _], _] => some false
  | [a, ['='], b] => some (a == b)
  | [a, ['=', '='], b] => some (a == b)
  | [a, ['!', '='], b] => some (a != b)
  | [a, operator, b] => do
    let a ← comparand? a
    let b ← comparand? b
    compare? (String.ofList operator) a b
  | _ => none

def test : Utility := fun arguments p =>
  p.withStatus (match holds? arguments with
    | some true => 0
    | some false => 1
    | none => 2)

def bracket : Utility := fun arguments p =>
  if arguments.getLast? = some [']'] then test arguments.dropLast p else p.withStatus 2

/-- The utilities that exist as programs of their own. -/
def programs : List (String × Utility) :=
  [("cat", cat), ("echo", echo false), ("printf", printf), ("sleep", sleep), ("head", head),
    ("wc", wc), ("kill", kill), ("test", test), ("[", bracket),
    ("true", fun _ p => p.withStatus 0), ("false", fun _ p => p.withStatus 1)]

/-- The utilities of a shell: its own ones first. -/
def ofShell : List (String × Utility) :=
  [("echo", echo true), (":", fun _ p => p.withStatus 0)] ++ programs

def folders : List String := ["/bin/", "/usr/bin/"]

/-- The utility with a name in a table, or with a path among the programs. -/
def find? (table : List (String × Utility)) (name : String) : Option Utility :=
  match table.lookup name with
  | some u => some u
  | none => programs.findSome? fun (known, u) =>
    if folders.any fun folder => folder ++ known = name then some u else none

end Utility

end AnalyzerBridge.Command
