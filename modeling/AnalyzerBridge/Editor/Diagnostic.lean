import AnalyzerBridge.Editor.Position
import AnalyzerBridge.Report.Basic

/-!
Problems as an editor shows them. Every problem that is not generic becomes one diagnostic, in the
order of the report.
-/

namespace AnalyzerBridge

/-- A problem as an editor shows it. All are warnings, since analyzers do not grade problems. -/
structure Diagnostic where
  range : Range
  code : Option String
  source : String
  message : String
deriving DecidableEq, Repr, Inhabited

def Problem.range (p : Problem) : Range :=
  .onLine p.line p.column p.tokenWidth

/-- The problem as a diagnostic with the given source tag. -/
def Problem.diagnostic (source : String) (p : Problem) : Diagnostic :=
  ⟨p.range, p.code, source, p.description⟩

def Report.diagnostics (source : String) (r : Report) : List Diagnostic :=
  (r.problems.filter (!·.generic)).map (Problem.diagnostic source)

def Diagnostic.warning : Nat := 2

def Diagnostic.toJson (d : Diagnostic) : Json :=
  .ofMembers [("range", some d.range.toJson), ("severity", some (.nat warning)),
    ("code", d.code.map .text), ("source", some (.text d.source)),
    ("message", some (.text d.message))]

end AnalyzerBridge
