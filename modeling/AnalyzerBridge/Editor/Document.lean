import AnalyzerBridge.Editor.Position
import AnalyzerBridge.Text.Lines
import AnalyzerBridge.Text.Units

/-!
Open documents. An edit replaces the characters between two places of the text; places past the end
of a line or of the text are moved back to that end.
-/

namespace AnalyzerBridge

structure Document where
  version : Int
  text : String
deriving DecidableEq, Repr, Inhabited

/-- One edit. Without a range, the whole text is replaced. -/
structure Edit where
  range : Option Range
  text : String
deriving DecidableEq, Repr, Inhabited

namespace Document

def linesOf (text : List Char) : List Text.Line :=
  Text.splitLines Text.isUnicodeBreak text

/-- How many characters of a text come before a place. The end of a line is the end of its break,
where the next line starts. -/
def indexIn (text : List Char) (p : Position) : Nat :=
  let lines := linesOf text
  match lines.drop p.line.toNat with
  | [] => text.length
  | line :: _ =>
    ((lines.take p.line.toNat).flatMap Text.Line.text).length +
      Text.charsWithin p.character.toNat line.text

def splice (text : List Char) (start stop : Nat) (replacement : List Char) : List Char :=
  text.take start ++ replacement ++ text.drop stop

/-- A text after an edit. A range that ends before its start is empty. -/
def editText (text : List Char) (e : Edit) : List Char :=
  match e.range with
  | none => e.text.toList
  | some r =>
    let start := indexIn text r.start
    splice text start (max (indexIn text r.stop) start) e.text.toList

variable (d : Document)

def lineCount : Nat :=
  (linesOf d.text.toList).length

/-- How many characters of the document come before a place. -/
def index (p : Position) : Nat :=
  indexIn d.text.toList p

/-- The document after edits, made one after the other, with its new version. -/
def edit (version : Int) (edits : List Edit) : Document :=
  ⟨version, String.ofList (edits.foldl editText d.text.toList)⟩

end Document

end AnalyzerBridge
