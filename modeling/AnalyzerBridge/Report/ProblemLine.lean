import AnalyzerBridge.Report.Basic
import AnalyzerBridge.Text.Blank
import AnalyzerBridge.Text.Fields
import AnalyzerBridge.Text.Lines

/-!
Reports written as lines: `[code, line, column, length]: message` for each problem, and `OK` at the
end. Lines of any other shape are passed over, and so is whatever follows the end.
-/

namespace AnalyzerBridge

/-- A problem as one line gives it. -/
structure ProblemLine where
  code : String
  line : UInt32
  column : UInt32
  length : UInt32
  message : String
deriving DecidableEq, Repr, Inhabited

namespace ProblemLine

/-- Why a line gives no problem. -/
inductive Fault where
  | noMarker
  | noBracket
  | fieldCount (count : Nat)
  | emptyCode
  | badNumber (field value : String)
  | zeroLine
deriving DecidableEq, Repr

def Fault.message : Fault → String
  | noMarker => "missing `]:` message marker"
  | noBracket => "missing `[` before the position fields"
  | fieldCount n => "expected 4 position fields, found " ++ toString n
  | emptyCode => "empty error code"
  | badNumber field value => "invalid " ++ field ++ ": `" ++ value ++ "`"
  | zeroLine => "line numbers are 1-based, found 0"

/-- What stands before and after the first marker, a closing bracket with a colon. -/
def splitMarker : List Char → Option (List Char × List Char)
  | [] => none
  | ']' :: ':' :: s => some ([], s)
  | c :: s => (splitMarker s).map fun p => (c :: p.1, p.2)

/-- What stands after the first opening bracket. -/
def afterBracket : List Char → Option (List Char)
  | [] => none
  | c :: s => if c = '[' then some s else afterBracket s

def number (field : String) (value : List Char) : Except Fault UInt32 :=
  match Text.numeral? (twoTo 32) value with
  | some n => .ok (UInt32.ofNat n)
  | none => .error (.badNumber field (String.ofList value))

/-- Reads a line: its fields stand between the first bracket and the first marker, the message
after the marker. -/
def ofText (text : List Char) : Except Fault ProblemLine := do
  let some (header, message) := splitMarker text | .error .noMarker
  let some inside := afterBracket header | .error .noBracket
  let fields := (Text.splitComma inside).map Text.trim
  let [code, line, column, length] := fields | .error (.fieldCount fields.length)
  if code.isEmpty then .error .emptyCode
  let line ← number "line" line
  if line = 0 then .error .zeroLine
  let column ← number "column" column
  let length ← number "length" length
  .ok ⟨String.ofList code, line, column, length, String.ofList (Text.trim message)⟩

def problem (l : ProblemLine) : Problem where
  line := l.line
  column := l.column
  token := ""
  description := l.message
  generic := false
  code := some l.code
  length := some l.length

end ProblemLine

namespace Report

/-- The line that ends the problems. -/
def endLine : List Char := ['O', 'K']

def trimmedLines (s : String) : List (List Char) :=
  (Text.splitLines Text.isFeed s.toList).map (Text.trim ·.content)

/-- The problem on a trimmed line, if it has the shape of one. -/
def problemOn (line : List Char) : Option Problem :=
  (ProblemLine.ofText line).toOption.map ProblemLine.problem

/-- The report in a text of lines: the problems before the end line. All is well if there are none,
and there is an end line. -/
def ofLines (s : String) : Report :=
  let lines := trimmedLines s
  let problems := (lines.takeWhile (· ≠ endLine)).filterMap problemOn
  { Report.blank with
    verdict := if lines.contains endLine && problems.isEmpty then .ok else .failed
    problems := problems }

end Report

end AnalyzerBridge
