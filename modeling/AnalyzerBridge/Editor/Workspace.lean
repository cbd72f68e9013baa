import AnalyzerBridge.Editor.Document
import AnalyzerBridge.Service.Basic

/-!
The open documents of an editor. Every new text of an open document is handed to the analysis
service; a hover is asked for the text that the document has at that time.
-/

namespace AnalyzerBridge

/-- What happens in the editor. A hover has the number of its request. -/
inductive EditorEvent where
  | opened (uri : String) (version : Int) (text : String)
  | changed (uri : String) (version : Int) (edits : List Edit)
  | closed (uri : String)
  | hovered (uri : String) (position : Position) (request : Nat)

/-- The open documents, each with its address. -/
structure Workspace where
  documents : List (String × Document)

namespace Workspace

def empty : Workspace := ⟨[]⟩

variable (w : Workspace) (uri : String)

def find? : Option Document :=
  w.documents.lookup uri

def erase : Workspace :=
  ⟨w.documents.filter (·.1 ≠ uri)⟩

def set (d : Document) : Workspace :=
  ⟨(uri, d) :: (w.erase uri).documents⟩

/-- Handles an event, and gives the command for the analysis service, if there is one. Changes of
documents that are not open, and hovers over them, give none. -/
def handle : EditorEvent → Workspace × Option Command
  | .opened uri version text => (w.set uri ⟨version, text⟩, some (.analyze uri version text))
  | .changed uri version edits =>
    match w.find? uri with
    | none => (w, none)
    | some d =>
      let d := d.edit version edits
      (w.set uri d, some (.analyze uri d.version d.text))
  | .closed uri => (w.erase uri, some (.close uri))
  | .hovered uri position request =>
    match w.find? uri with
    | none => (w, none)
    | some d => (w, some (.hover uri d.text position request))

end Workspace

end AnalyzerBridge
