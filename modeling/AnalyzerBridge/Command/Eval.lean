import AnalyzerBridge.Command.Parser
import AnalyzerBridge.Command.Pattern
import AnalyzerBridge.Command.Utility

/-!
Running scripts. A script changes the state of its program; the fuel bounds how deeply commands
are nested and how often loops go round, and a script that uses it up counts as one that never ends.
-/

namespace AnalyzerBridge.Command

open Run

def notFoundStatus : Nat := 127

def badScriptStatus : Nat := 2

/-- The characters that split the values of expansions into fields, unless a script says otherwise. -/
def defaultSeparators : List Char := [' ', '\t', '\n']

def separatorsName : List Char := ['I', 'F', 'S']

namespace Process

variable (p : Process)

def separators : List Char :=
  (p.bindings.lookup separatorsName).getD defaultSeparators

def parameter : Parameter → List Char
  | .variable name => p.value name
  | .argument 0 => p.name
  | .argument (n + 1) => (p.arguments[n]?).getD []
  | .count => (toString p.arguments.length).toList
  | .all => joined p.arguments
  | .status => (toString p.status).toList
  | .processId => (toString Utility.processId).toList

/-- A program that uses up its time. -/
def neverEnds : Process :=
  { p with clock := p.clock + forever }

/-- Has the program come to its end, or to no end? -/
def isOver : Bool :=
  p.exit.isSome || decide (forever ≤ p.clock)

/-- Ends the program with its status, unless it has ended. -/
def leave : Process :=
  if p.exit.isSome then p else p.quit (.code p.status)

end Process

/-- Fields while a word is expanded: those finished, last first, and the one being gathered. -/
structure Fields where
  finished : List (List Char)
  current : Option (List Char)

namespace Fields

def add (f : Fields) (s : List Char) : Fields :=
  { f with current := some (f.current.getD [] ++ s) }

def finish (f : Fields) : Fields :=
  match f.current with
  | none => f
  | some s => ⟨s :: f.finished, none⟩

/-- Adds a text that is split where separators stand. -/
def addSplit (separators : List Char) : Fields → List Char → Fields
  | f, [] => f
  | f, c :: s => addSplit separators (if separators.contains c then f.finish else f.add [c]) s

/-- Adds texts as fields of their own, the outer ones joined with what stands beside them. -/
def addEach : Fields → List (List Char) → Fields
  | f, [] => f
  | f, [s] => f.add s
  | f, s :: rest => addEach (f.add s).finish rest

def toList (f : Fields) : List (List Char) :=
  f.finish.finished.reverse

end Fields

/-- Bytes as the text that a script sees: without line ends at the end, and without zeros. -/
def outputText (bytes : List UInt8) : List Char :=
  let text := (Text.Utf8.decodeLossy bytes).filter (·.toNat ≠ 0)
  (text.reverse.dropWhile (· = '\n')).reverse

/-- A reader's line: its bytes, how many were taken, and whether it was ended. A backslash joins
lines, unless it is taken literally. -/
def takeLine (literally : Bool) : List UInt8 → List UInt8 × Nat × Bool
  | [] => ([], 0, false)
  | b :: bs =>
    if b = 0x0A then ([], 1, true)
    else if b = 0x5C && !literally then match bs with
      | 0x0A :: bs => let (line, n, ended) := takeLine literally bs; (line, n + 2, ended)
      | c :: bs => let (line, n, ended) := takeLine literally bs; (c :: line, n + 2, ended)
      | [] => ([], 1, false)
    else let (line, n, ended) := takeLine literally bs; (b :: line, n + 1, ended)

/-- The text of a line without the white separators at its end. -/
def withoutEnd (separators : List Char) (s : List Char) : List Char :=
  (s.reverse.dropWhile fun c => separators.contains c && defaultSeparators.contains c).reverse

/-- The text of a line without the white separators at its start. -/
def withoutStart (separators : List Char) (s : List Char) : List Char :=
  s.dropWhile fun c => separators.contains c && defaultSeparators.contains c

/-- Gives the fields of a line to variables, the last of which takes the rest. -/
def assignFields (separators : List Char) : List (List Char) → List Char → Process → Process
  | [], _, p => p
  | [name], s, p => p.set name (withoutEnd separators (withoutStart separators s))
  | name :: names, s, p =>
    let s := withoutStart separators s
    let field := s.takeWhile (!separators.contains ·)
    assignFields separators names ((s.dropWhile (!separators.contains ·)).drop 1) (p.set name field)

def readLine (arguments : List (List Char)) (p : Process) : Process :=
  let literally := arguments.head? = some ['-', 'r']
  let names := if literally then arguments.tail else arguments
  let (line, n, ended) := takeLine literally p.readable
  let text := (Text.Utf8.decodeLossy line).filter (·.toNat ≠ 0)
  let p := assignFields p.separators names text (p.takeInput n)
  p.withStatus (if ended then 0 else 1)

def redirect (descriptor : Nat) (s : Stream) (p : Process) : Process :=
  match descriptor with
  | 0 => { p with standardInput := s }
  | 1 => { p with standardOutput := s }
  | 2 => { p with standardError := s }
  | _ => p

def Process.stream (p : Process) : Nat → Stream
  | 0 => p.standardInput
  | 1 => p.standardOutput
  | 2 => p.standardError
  | _ => .closed

/-- Gives a program the descriptors of another one back. -/
def Process.restore (p saved : Process) : Process :=
  { p with
    standardInput := saved.standardInput
    standardOutput := saved.standardOutput
    standardError := saved.standardError }

/-- A program that does not share its variables, its arguments and its end with this one. -/
def Process.joinSubshell (p sub : Process) : Process :=
  { p with
    clock := sub.clock
    input := sub.input
    inputTaken := sub.inputTaken
    output := sub.output
    status := match sub.exit with
      | some (.code n) => n
      | some (.signal n _) => 128 + n
      | none => sub.status
    exit := match sub.exit with
      | some (.signal n dumped) => some (.signal n dumped)
      | _ => none }

def exitCode (arguments : List (List Char)) (p : Process) : Nat :=
  match arguments with
  | [] => p.status
  | a :: _ => match Text.digitsValue? a with
    | some n => if a.isEmpty then badScriptStatus else n % 256
    | none => badScriptStatus

def shells : List String := ["sh", "dash"]

def shellNames : List String :=
  shells.flatMap fun name => name :: Utility.folders.map (· ++ name)

mutual

def run : Nat → Script → Process → Process
  | 0, _, p => p.neverEnds
  | fuel + 1, script, p =>
    if p.isOver then p
    else match script with
      | .skip => p.withStatus 0
      | .simple c => runSimple fuel c p
      | .sequence a .skip => run fuel a p
      | .sequence a b => run fuel b (run fuel a p)
      | .both a b =>
        let p := run fuel a p
        if p.isOver || p.status ≠ 0 then p else run fuel b p
      | .either a b =>
        let p := run fuel a p
        if p.isOver || p.status = 0 then p else run fuel b p
      | .negated a =>
        let p := run fuel a p
        if p.isOver then p else p.withStatus (if p.status = 0 then 1 else 0)
      | .pipe a b =>
        let left := run fuel a { p with output := [], standardOutput := .pipe }
        let after := p.joinSubshell left
        let right := run fuel b { after with
          input := left.output.reverse, inputTaken := some 0, standardInput := .pipe
          output := p.output }
        { after.joinSubshell right with input := after.input, inputTaken := after.inputTaken }
      | .choice word arms =>
        let (p, fields) := expandWord fuel false word p
        runArms fuel (joined fields) arms p
      | .branch test yes no =>
        let p := run fuel test p
        if p.isOver then p else if p.status = 0 then run fuel yes p else run fuel no p
      | .loop test body =>
        let p := run fuel test p
        if p.isOver then p
        else if p.status ≠ 0 then p.withStatus 0
        else run fuel script (run fuel body p)
      | .each name words body =>
        let (p, fields) := expandWords fuel words p
        runEach fuel name fields body (p.withStatus 0)
      | .group redirections body =>
        match applyAll fuel redirections p with
        | (q, true) => (run fuel body q).restore p
        | (q, false) => (q.restore p).withStatus badScriptStatus
      | .subshell redirections body =>
        match applyAll fuel redirections p with
        | (q, true) => p.joinSubshell (run fuel body q)
        | (q, false) => (q.restore p).withStatus badScriptStatus

def runEach : Nat → List Char → List (List Char) → Script → Process → Process
  | 0, _, _, _, p => p.neverEnds
  | _ + 1, _, [], _, p => p
  | fuel + 1, name, value :: values, body, p =>
    runEach fuel name values body (run fuel body (p.set name value))

def runArms : Nat → List Char → List (List Word × Script) → Process → Process
  | 0, _, _, p => p.neverEnds
  | _ + 1, _, [], p => p.withStatus 0
  | fuel + 1, text, (patterns, body) :: arms, p =>
    match fitsAny fuel text patterns p with
    | (p, true) => run fuel body p
    | (p, false) => runArms fuel text arms p

def fitsAny : Nat → List Char → List Word → Process → Process × Bool
  | 0, _, _, p => (p.neverEnds, false)
  | _ + 1, _, [], p => (p, false)
  | fuel + 1, text, w :: ws, p =>
    let (p, pattern) := expandPattern fuel w p
    if Pattern.fits pattern text then (p, true) else fitsAny fuel text ws p

def expandPiece : Nat → Piece → Process → Process × List Char
  | 0, _, p => (p.neverEnds, [])
  | _ + 1, .literal _ s, p => (p, s)
  | _ + 1, .parameter _ q, p => (p, p.parameter q)
  | fuel + 1, .output _ text, p =>
    match Script.ofText? text with
    | none => (p.quit (.code badScriptStatus), [])
    | some script =>
      let sub := run fuel script { p with output := [], standardOutput := .pipe }
      ({ (p.joinSubshell sub) with output := p.output }, outputText sub.output.reverse)

/-- The fields of a word, gathered so far in `f`. -/
def expandPieces : Nat → Word → Fields → Process → Process × Fields
  | 0, _, f, p => (p.neverEnds, f)
  | _ + 1, [], f, p => (p, f)
  | fuel + 1, .parameter true .all :: rest, f, p => expandPieces fuel rest (f.addEach p.arguments) p
  | fuel + 1, piece :: rest, f, p =>
    let (p, s) := expandPiece fuel piece p
    let f := match piece with
      | .literal .. | .parameter true _ | .output true _ => f.add s
      | _ => f.addSplit p.separators s
    expandPieces fuel rest f p

/-- The fields of a word; if it is not to be split, its text is the only one. -/
def expandWord : Nat → Bool → Word → Process → Process × List (List Char)
  | 0, _, _, p => (p.neverEnds, [])
  | fuel + 1, true, w, p =>
    let (p, f) := expandPieces fuel w ⟨[], none⟩ p
    (p, f.toList)
  | fuel + 1, false, w, p =>
    let (p, pattern) := expandPattern fuel w p
    (p, [pattern.map (·.1)])

/-- The characters of a word, with whether they are quoted. -/
def expandPattern : Nat → Word → Process → Process × List PatternChar
  | 0, _, p => (p.neverEnds, [])
  | _ + 1, [], p => (p, [])
  | fuel + 1, piece :: rest, p =>
    let (p, s) := expandPiece fuel piece p
    let quoted := match piece with
      | .literal q _ | .parameter q _ | .output q _ => q
    let (p, pattern) := expandPattern fuel rest p
    (p, s.map (·, quoted) ++ pattern)

def expandWords : Nat → List Word → Process → Process × List (List Char)
  | 0, _, p => (p.neverEnds, [])
  | _ + 1, [], p => (p, [])
  | fuel + 1, w :: ws, p =>
    let (p, fields) := expandWord fuel true w p
    let (p, rest) := expandWords fuel ws p
    (p, fields ++ rest)

def assignAll : Nat → List (List Char × Word) → Process → Process
  | 0, _, p => p.neverEnds
  | _ + 1, [], p => p
  | fuel + 1, (name, w) :: rest, p =>
    let (p, value) := expandWord fuel false w p
    assignAll fuel rest (p.set name (joined value))

/-- Makes the redirections; `false` if one of them fails. Only the null device and the standard
streams can be read; what is written to other files is lost. -/
def applyAll : Nat → List Redirection → Process → Process × Bool
  | 0, _, p => (p.neverEnds, false)
  | _ + 1, [], p => (p, true)
  | fuel + 1, r :: rest, p =>
    match r.target with
    | .closed => applyAll fuel rest (redirect r.descriptor .closed p)
    | .descriptor n => applyAll fuel rest (redirect r.descriptor (p.stream n) p)
    | .file w =>
      let (p, path) := expandWord fuel false w p
      let name := String.ofList (joined path)
      let stream? : Option Stream :=
        if r.reads then
          if Utility.nothingFiles.contains name then some .nowhere
          else if Utility.inputFiles.contains name then some p.standardInput
          else none
        else if name = "/dev/stdout" then some p.standardOutput
        else if name = "/dev/stderr" then some p.standardError
        else some .nowhere
      match stream? with
      | some s => applyAll fuel rest (redirect r.descriptor s p)
      | none => (p, false)

def runSimple : Nat → SimpleCommand → Process → Process
  | 0, _, p => p.neverEnds
  | fuel + 1, c, p =>
    let (p, words) := expandWords fuel c.words p
    if p.isOver then p
    else match applyAll fuel c.redirections p with
      | (q, false) => (q.restore p).withStatus badScriptStatus
      | (q, true) => match words with
        | [] => (assignAll fuel c.assignments (q.withStatus 0)).restore p
        | ['e', 'x', 'e', 'c'] :: words =>
          let q := (assignAll fuel c.assignments q).noteClosed
          match words with
          | [] => q.withStatus 0
          | name :: arguments =>
            if shellNames.contains (String.ofList name) then runShell fuel arguments q
            else (runCommand fuel name arguments q).leave
        | name :: arguments =>
          let q := runCommand fuel name arguments (assignAll fuel c.assignments q)
          { q.restore p with bindings := match c.assignments with
            | [] => q.bindings
            | assignments => q.bindings.filter (fun v => !(assignments.map (·.1)).contains v.1) ++
              p.bindings.filter fun v => (assignments.map (·.1)).contains v.1 }

def runCommand : Nat → List Char → List (List Char) → Process → Process
  | 0, _, _, p => p.neverEnds
  | fuel + 1, name, arguments, p =>
    let name := String.ofList name
    match name with
    | "exit" => p.quit (.code (exitCode arguments p))
    | "read" => readLine arguments p
    | "shift" => { p with arguments := p.arguments.drop 1 }.withStatus 0
    | "eval" => runText fuel (joined arguments) p
    | "set" => match arguments with
      | ['-', '-'] :: arguments => { p with arguments := arguments }.withStatus 0
      | _ => p.withStatus 0
    | "trap" => p.withStatus 0
    | name =>
      if shellNames.contains name then
        { p.joinSubshell (runShell fuel arguments { p with bindings := [] }) with exit := none }
      else match Utility.find? Utility.ofShell name with
        | some utility => utility arguments p
        | none => (p.complain ("sh: 1: " ++ name ++ ": not found")).withStatus notFoundStatus

def runText : Nat → List Char → Process → Process
  | 0, _, p => p.neverEnds
  | fuel + 1, text, p =>
    match Script.ofText? text with
    | some script => run fuel script p
    | none => (p.complain "sh: 1: Syntax error").quit (.code badScriptStatus)

/-- Runs a shell: the script among its arguments, or the one in its input. -/
def runShell : Nat → List (List Char) → Process → Process
  | 0, _, p => p.neverEnds
  | fuel + 1, arguments, p =>
    match arguments with
    | ['-', 'c'] :: text :: rest =>
      (runText fuel text { p with
        name := rest.headD p.name, arguments := rest.tail }).leave
    | [] =>
      let text := Text.Utf8.decodeLossy p.readable
      (runText fuel text (p.takeInput p.readable.length)).leave
    | _ => p.quit (.code badScriptStatus)

end

/-- How deep and how long the scripts of a run may go. -/
def fuelFor (arguments : List (List Char)) (input : List UInt8) : Nat :=
  1000 + 10 * arguments.foldl (fun n a => n + a.length) 0 + 10 * input.length

def programNames : List String :=
  shells ++ Utility.programs.map (·.1)

def program? (name : String) : Option Utility :=
  if shells.contains name then
    some fun arguments p => runShell (fuelFor arguments p.input) arguments p
  else (Utility.programs.lookup name).map fun utility arguments p =>
    (utility arguments p).leave

end AnalyzerBridge.Command
