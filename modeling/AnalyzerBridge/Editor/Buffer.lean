import AnalyzerBridge.Editor.Document

/-!
A document in a buffer that is only asked for what it has. A buffer refuses a line past the last one,
a unit past the end of a text, a character past the end, and a part that ends before its start. An
edit is a few requests, each made of the text that the one before has left.
-/

namespace AnalyzerBridge

/-- A text that answers requests. -/
structure Buffer where
  text : List Char
deriving DecidableEq, Repr

namespace Buffer

variable (b : Buffer)

def lineCount : Nat :=
  (Document.linesOf b.text).length

def unitCount : Nat :=
  Text.units b.text

def line? (n : Nat) : Option Buffer :=
  (Document.linesOf b.text)[n]?.map fun l => ⟨l.text⟩

/-- How many characters come before a line. What comes before the line after the last is the whole
text. -/
def lineStart? (n : Nat) : Option Nat :=
  if n ≤ b.lineCount then some (((Document.linesOf b.text).take n).flatMap Text.Line.text).length
  else none

/-- How many characters come before a unit. -/
def charOfUnit? (n : Nat) : Option Nat :=
  if n ≤ b.unitCount then some (Text.charsWithin n b.text) else none

/-- The text without the characters from `start` to `stop`. -/
def remove? (start stop : Nat) : Option Buffer :=
  if start ≤ stop ∧ stop ≤ b.text.length then some ⟨b.text.take start ++ b.text.drop stop⟩ else none

/-- The text with more characters before the one at `start`. -/
def insert? (start : Nat) (added : List Char) : Option Buffer :=
  if start ≤ b.text.length then some ⟨b.text.take start ++ added ++ b.text.drop start⟩ else none

/-- How many characters come before a place. Lines past the last are never asked for, nor units past
the end of a line. -/
def index? (p : Position) : Option Nat :=
  if b.lineCount ≤ p.line.toNat then some b.text.length
  else do
    let line ← b.line? p.line.toNat
    let start ← b.lineStart? p.line.toNat
    let chars ← line.charOfUnit? (min p.character.toNat line.unitCount)
    return start + chars

/-- The buffer after an edit. The part between the ends of the range is taken out, and the new text
put in its place; an end before the start is moved there. -/
def edit? (e : Edit) : Option Buffer :=
  match e.range with
  | none => some ⟨e.text.toList⟩
  | some r => do
    let start ← b.index? r.start
    let stop ← b.index? r.stop
    let rest ← b.remove? start (max stop start)
    rest.insert? start e.text.toList

end Buffer

namespace Document

variable (d : Document)

def buffer : Buffer :=
  ⟨d.text.toList⟩

/-- The document after edits in its buffer. There is none if a request is refused. -/
def edit? (version : Int) (edits : List Edit) : Option Document := do
  let b ← edits.foldlM Buffer.edit? d.buffer
  return ⟨version, String.ofList b.text⟩

end Document

end AnalyzerBridge
