import AnalyzerBridge.Editor.Workspace
import AnalyzerBridge.Json.Form
import AnalyzerBridge.Json.Writer

/-!
The parameters of messages, and their forms.
-/

namespace AnalyzerBridge

open Form FieldForm

def Form.i32 : Form Int :=
  integer "i32" fun n => if -(twoTo 31 : Int) ≤ n ∧ n < twoTo 31 then some n else none

def Form.any : Form Json :=
  ofValue .ok

def Position.form : Form Position :=
  record "struct Position" ⟨0, 0⟩ [
    need "line" u32 fun v p => { p with line := v },
    need "character" u32 fun v p => { p with character := v }]

def Range.form : Form Range :=
  record "struct Range" ⟨⟨0, 0⟩, ⟨0, 0⟩⟩ [
    need "start" Position.form fun v r => { r with start := v },
    need "end" Position.form fun v r => { r with stop := v }]

/-- The form of an edit. The length of the range need not be said, and is not looked at. -/
def Edit.form : Form Edit :=
  record "struct TextDocumentContentChangeEvent" ⟨none, ""⟩ [
    may "range" (optional Range.form) fun v e => { e with range := v },
    may "rangeLength" (optional u32) fun _ e => e,
    need "text" Form.text fun v e => { e with text := v }]

namespace Session

structure StartParams where
  options : Option Json

def StartParams.form : Form StartParams :=
  record "struct InitializeParams" ⟨none⟩ [
    may "initializationOptions" (optional any) fun v p => { p with options := v },
    need "capabilities" any fun _ p => p]

/-- A document that a message names, with what else it says of it. -/
structure DocumentParams where
  uri : String
  version : Int
  text : String

def DocumentParams.named : Form DocumentParams :=
  record "struct TextDocumentIdentifier" ⟨"", 0, ""⟩ [
    need "uri" Form.text fun v d => { d with uri := v }]

def DocumentParams.versioned : Form DocumentParams :=
  record "struct VersionedTextDocumentIdentifier" ⟨"", 0, ""⟩ [
    need "uri" Form.text fun v d => { d with uri := v },
    need "version" i32 fun v d => { d with version := v }]

def DocumentParams.whole : Form DocumentParams :=
  record "struct TextDocumentItem" ⟨"", 0, ""⟩ [
    need "uri" Form.text fun v d => { d with uri := v },
    need "languageId" Form.text fun _ d => d,
    need "version" i32 fun v d => { d with version := v },
    need "text" Form.text fun v d => { d with text := v }]

def openedForm : Form EditorEvent :=
  map (fun d => .opened d.uri d.version d.text)
    (record "struct DidOpenTextDocumentParams" ⟨"", 0, ""⟩ [
      need "textDocument" DocumentParams.whole fun v _ => v])

def changedForm : Form EditorEvent :=
  map (fun (d, edits) => .changed d.uri d.version edits)
    (record "struct DidChangeTextDocumentParams" (⟨"", 0, ""⟩, []) [
      need "textDocument" DocumentParams.versioned fun v p => (v, p.2),
      need "contentChanges" (list Edit.form) fun v p => (p.1, v)])

def closedForm : Form EditorEvent :=
  map (fun d => .closed d.uri)
    (record "struct DidCloseTextDocumentParams" ⟨"", 0, ""⟩ [
      need "textDocument" DocumentParams.named fun v _ => v])

/-- A place in a document. -/
structure PlaceParams where
  uri : String
  position : Position

/-- The form of a place, in the parameters with the given title. -/
def PlaceParams.form (title : String) : Form PlaceParams :=
  objectOnly title ⟨"", ⟨0, 0⟩⟩ [
    need "textDocument" DocumentParams.named fun v p => { p with uri := v.uri },
    need "position" Position.form fun v p => { p with position := v }]

def required {α : Type} (f : Form α) (params : Option Json) : Except String α :=
  match params with
  | none => .error "Missing params field"
  | some v => match f.ofJson v with
    | .ok a => .ok a
    | .error e => .error e.message

/-- What is said of parameters where none are wanted, if there are some. -/
def unexpected? (params : Option Json) : Option String :=
  params.map fun v => "Unexpected params: " ++ v.compact

end Session

end AnalyzerBridge
