import AnalyzerBridge.Report.ProblemLine
import AnalyzerBridge.Report.Structured

/-!
The two formats in which analyzers report. Which one is read is a setting and is never guessed.
-/

namespace AnalyzerBridge

/-- How an analyzer writes its report: as one JSON value, or as lines. -/
inductive Format where
  | structured
  | legacy
deriving DecidableEq, Repr, Inhabited

namespace Format

def name : Format → String
  | structured => "structured"
  | legacy => "legacy"

def form : Form Format :=
  .choice [("structured", .structured), ("legacy", .legacy)]

/-- The words for formats, in small letters. -/
def words : List (String × Format) :=
  [("structured", .structured), ("json", .structured), ("legacy", .legacy), ("text", .legacy)]

/-- A word as it is compared: without blanks around it, in small letters. -/
def normalWord (s : String) : String :=
  String.ofList ((Text.trim s.toList).map Char.toLower)

/-- The format that a word means; otherwise the word as it was compared. -/
def ofWord (s : String) : Except String Format :=
  match words.lookup (normalWord s) with
  | some f => .ok f
  | none => .error (normalWord s)

def unknownMessage (word : String) : String :=
  "unknown analyzer output format `" ++ word ++ "` (expected `structured` or `legacy`)"

/-- Reads the whole output of an analyzer. -/
def read (f : Format) (output : String) : Except Fault Report :=
  match f with
  | structured => Report.ofText output
  | legacy => .ok (Report.ofLines output)

end Format

def Report.faultMessage (f : Fault) : String :=
  "malformed analyzer JSON: " ++ f.message

end AnalyzerBridge
