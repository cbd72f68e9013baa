import AnalyzerBridge.Host.Installation
import AnalyzerBridge.Settings.Basic

/-!
Starting programs: which names and paths lead to one, and what comes about while it runs.
-/

namespace AnalyzerBridge.Host

/-- The program at a path. Nothing else may be started. -/
def programAt (f : Files) (path : String) : Except Fault String := do
  match ← f.find path with
  | .program name => .ok name
  | _ => .error .denied

/-- The program with a name, in the first folder that has it. A folder that has something else of
that name is passed by, but remembered. -/
def programNamed (f : Files) (name : String) : Except Fault String :=
  programFolders.foldr (fun folder rest =>
    match programAt f (folder ++ name), rest with
    | .ok program, _ | .error _, .ok program => .ok program
    | .error .notFound, .error fault | .error .notDirectory, .error fault => .error fault
    | .error fault, .error _ => .error fault) (.error .notFound)

/-- The program that a text means: a path if it has a slash, else a name. -/
def program (f : Files) (text : String) : Except Fault String :=
  if text.isEmpty then .error .notFound
  else if text.toList.contains '/' then programAt f text
  else programNamed f text

def hasZero (s : String) : Bool :=
  s.toList.contains (Char.ofNat 0)

inductive StartFault where
  | zeroByte
  | program (fault : Fault)
deriving DecidableEq, Repr

def StartFault.message : StartFault → String
  | zeroByte => "nul byte found in provided data"
  | program fault => fault.message

def startMessage (program : String) (f : StartFault) : String :=
  "failed to spawn analyzer `" ++ program ++ "`: " ++ f.message

def find (i : Invocation) : Except StartFault Command.Utility := do
  if hasZero i.program || i.args.any hasZero then .error .zeroByte
  let name ← (program .system i.program).mapError .program
  match Command.program? name with
  | some program => .ok program
  | none => .error (.program .notFound)

def starts (i : Invocation) : Bool :=
  (find i).toBool

/-- What comes about while the program of a command line runs. -/
def timeline (program : Command.Utility) (i : Invocation) (input : String) : Run.Timeline :=
  let arguments := i.args.map String.toList
  (program arguments (.start i.program.toList arguments input.toUTF8.toList)).timeline

/-- When and how a run ends, in milliseconds from its start, if it ever does. -/
def ending (program : Command.Utility) (i : Invocation) (input : String) (cancelAt : Option Nat) :
    Option (Nat × Outcome) :=
  (timeline program i input).ending ⟨i.timeLimit, cancelAt⟩

end AnalyzerBridge.Host
