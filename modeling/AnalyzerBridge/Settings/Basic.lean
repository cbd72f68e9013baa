import AnalyzerBridge.Report.Format

/-!
Settings: which analyzer is run, how, and how its problems are tagged; and the command lines of its
runs that follow from them.
-/

namespace AnalyzerBridge

/-- What a run is for: problems alone, or the symbols as well. -/
inductive Purpose where
  | diagnostics
  | symbols
deriving DecidableEq, Repr, Inhabited

def Purpose.name : Purpose → String
  | diagnostics => "diagnostics"
  | symbols => "symbol listing"

/-- The command line of one run. Without a time limit it may take for ever. -/
structure Invocation where
  purpose : Purpose
  program : String
  args : List String
  timeLimit : Option Nat
deriving DecidableEq, Repr, Inhabited

/-- How the analyzer is run. A time limit of zero milliseconds is none. -/
structure AnalyzerSettings where
  path : String
  args : List String
  exitFlag : String
  listSymbolsFlag : String
  format : Format
  timeoutMs : UInt64
deriving DecidableEq, Repr, Inhabited

/-- How problems are shown. -/
structure DiagnosticsSettings where
  source : String
deriving DecidableEq, Repr, Inhabited

structure Settings where
  analyzer : AnalyzerSettings
  diagnostics : DiagnosticsSettings
deriving DecidableEq, Repr, Inhabited

namespace AnalyzerSettings

/-- The settings where nothing else is said. -/
def default : AnalyzerSettings where
  path := "LangSrv"
  args := []
  exitFlag := "--exit"
  listSymbolsFlag := "--listSymbols"
  format := .structured
  timeoutMs := 10000

/-- The time limit of a run in milliseconds. -/
def timeLimit (a : AnalyzerSettings) : Option Nat :=
  if a.timeoutMs = 0 then none else some a.timeoutMs.toNat

/-- The flags that a purpose asks for, after the arguments. -/
def flags (a : AnalyzerSettings) : Purpose → List String
  | .diagnostics => [a.exitFlag]
  | .symbols => [a.exitFlag, a.listSymbolsFlag]

def invocation (a : AnalyzerSettings) (p : Purpose) : Invocation :=
  ⟨p, a.path, a.args ++ a.flags p, a.timeLimit⟩

end AnalyzerSettings

def DiagnosticsSettings.default : DiagnosticsSettings :=
  ⟨"Q-Script"⟩

def Settings.default : Settings :=
  ⟨.default, .default⟩

end AnalyzerBridge
