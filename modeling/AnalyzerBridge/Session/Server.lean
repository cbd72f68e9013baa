import AnalyzerBridge.Editor.Capabilities
import AnalyzerBridge.Editor.Completion
import AnalyzerBridge.Service.System
import AnalyzerBridge.Session.Message
import AnalyzerBridge.Session.Methods
import AnalyzerBridge.Session.Params

/-!
The language server. It goes through a life cycle, keeps the open documents, hands texts and hovers
to the analysis service, and turns what the service does into messages for the editor.
-/

namespace AnalyzerBridge.Session

/-- The life cycle of a server. -/
inductive Life where
  | fresh
  | ready
  | stopped
  | ended
deriving DecidableEq, Repr

/-- The state of a server. Hover requests that wait for an answer are kept with their numbers. -/
structure Server where
  life : Life
  workspace : Workspace
  system : System
  waiting : List (Nat × Json)
  hovers : Nat

namespace Server

def initial (settings : Settings) : Server :=
  ⟨.fresh, .empty, .initial settings, [], 0⟩

def name : String := "qscript-lsp"

def version : String := "0.2.0"

/-- What the editor is told when a session starts. -/
def greeting : Json :=
  .object [("capabilities", Capabilities.server.toJson),
    ("serverInfo", .object [("name", .text name), ("version", .text version)])]

/-- The protocol's number for messages that inform. -/
def infoType : Nat := 3

def readyNotice : Outgoing :=
  .notification "window/logMessage"
    (.object [("type", .nat infoType), ("message", .text "Q-Script language server ready")])

def publication (uri : String) (diagnostics : List Diagnostic) (version : Option Int) : Outgoing :=
  .notification "textDocument/publishDiagnostics" (.ofMembers [("uri", some (.text uri)),
    ("diagnostics", some (.list (diagnostics.map Diagnostic.toJson))), ("version", version.map .int)])

/-- What a step of the server gives: its new state, messages, and what the service did. -/
structure Step where
  server : Server
  outgoing : List Outgoing
  effects : List Effect

def idle (s : Server) : Step :=
  ⟨s, [], []⟩

def reply (s : Server) (id : Option Json) (answer : Except Refusal Json) : Step :=
  ⟨s, id.toList.map fun id => match answer with
    | .ok v => .result id v
    | .error r => .refusal id r, []⟩

/-- Turns an effect of the service into a message, if it is one for the editor. -/
def deliver (s : Server) : Effect → Server × Option Outgoing
  | .published uri diagnostics version => (s, some (publication uri diagnostics version))
  | .answered request hover =>
    ({ s with waiting := s.waiting.filter (·.1 ≠ request) },
      (s.waiting.lookup request).map (.result · (Json.ofOption Hover.toJson hover)))
  | _ => (s, none)

def deliverAll (s : Server) : List Effect → Server × List Outgoing
  | [] => (s, [])
  | e :: es =>
    let (s, first) := s.deliver e
    let (s, rest) := deliverAll s es
    (s, first.toList ++ rest)

def after (s : Server) (step : System × List Effect) : Step :=
  let (s, outgoing) := { s with system := step.1 }.deliverAll step.2
  ⟨s, outgoing, step.2⟩

def finish (s : Server) (run : Nat) (o : Outcome) : Step :=
  s.after (s.system.finish run o)

variable (starts : Invocation → Bool) (s : Server)

def command (c : Command) : Step :=
  s.after (s.system.handle starts c)

def event (e : EditorEvent) : Step :=
  let (workspace, c) := s.workspace.handle e
  let s := { s with workspace := workspace }
  match c with
  | none => s.idle
  | some c => s.command starts c

/-- Something happens in the editor, if the parameters say so. -/
def notified (f : Form EditorEvent) (params : Option Json) : Step :=
  match required f params with
  | .ok e => s.event starts e
  | .error _ => s.idle

/-- A hover is asked for. Over a document that is not open, there is none. -/
def hover (id : Option Json) (params : Option Json) : Step :=
  match required (PlaceParams.form "struct HoverParams") params with
  | .error reason => s.reply id (.error (.invalidParams reason))
  | .ok place =>
    match s.workspace.find? place.uri with
    | none => s.reply id (.ok .null)
    | some _ =>
      let request := s.hovers
      { s with
        hovers := request + 1
        waiting := s.waiting ++ id.toList.map (request, ·) }.event starts
          (.hovered place.uri place.position request)

def itemOf (params : Option Json) : Except String CompletionItem := do
  let v ← required Form.any params
  let _ ← required (Form.objectOnly "struct CompletionItem" () [
    .need "label" Form.text fun _ u => u]) params
  .ok (.ofJson v.canonical)

/-- The session starts, unless it has. Options of the editor are laid over the settings. -/
def start (id : Option Json) (params : Option Json) : Step :=
  match s.life, required StartParams.form params with
  | .fresh, .ok p =>
    let s := { s with life := .ready }
    let answer := id.toList.map (Outgoing.result · greeting)
    match p.options with
    | none => ⟨s, answer, []⟩
    | some options =>
      let step := s.command starts (.configure options.canonical)
      { step with outgoing := answer ++ step.outgoing }
  | .fresh, .error reason => s.reply id (.error (.invalidParams reason))
  | _, _ => s.reply id (.error .invalidRequest)

def shutdown (id : Option Json) (params : Option Json) : Step :=
  match unexpected? params with
  | some reason => s.reply id (.error (.invalidParams reason))
  | none =>
    let step := { s with life := .stopped }.command starts .shutdown
    { step with outgoing := step.outgoing ++ id.toList.map (Outgoing.result · .null) }

/-- The request that the editor no longer waits for is refused. -/
def cancelRequest (params : Option Json) : Step :=
  let id := (params.bind (·.get? "id")).map Json.compact
  let isIt (w : Nat × Json) := some w.2.compact = id
  match s.waiting.find? isIt with
  | none => s.idle
  | some (request, id) =>
    ⟨{ s with waiting := s.waiting.filter (·.1 ≠ request) }, [.refusal id .cancelled], []⟩

def serve (m : Method) (id : Option Json) (params : Option Json) : Step :=
  match m with
  | .started => ⟨s, [readyNotice], []⟩
  | .didOpen => s.notified starts openedForm params
  | .didChange => s.notified starts changedForm params
  | .didClose => s.notified starts closedForm params
  | .hover => s.hover starts id params
  | .completion =>
    match required (PlaceParams.form "struct CompletionParams") params with
    | .error reason => s.reply id (.error (.invalidParams reason))
    | .ok _ => s.reply id (.ok (.list (CompletionItem.offers.map CompletionItem.toJson)))
  | .resolveCompletion =>
    match itemOf params with
    | .error reason => s.reply id (.error (.invalidParams reason))
    | .ok item => s.reply id (.ok item.resolve.toJson)
  | .shutdown => s.shutdown starts id params
  | _ => s.idle

/-- Refuses what does not fit the life cycle, or handles it. -/
def whileReady (id : Option Json) (step : Step) : Step :=
  match s.life with
  | .fresh => s.reply id (.error .notInitialized)
  | .ready => step
  | .stopped => s.reply id (.error .invalidRequest)
  | .ended => s.idle

/-- Handles a message. A server that has ended takes no notice. -/
def receive (m : Message) : Step :=
  if s.life = .ended then s.idle
  else match Method.ofName? m.method with
    | some .start => s.start starts m.id m.params
    | some .exit => { s with life := .ended }.idle
    | some .cancelRequest => s.cancelRequest m.params
    | some method => s.whileReady m.id (s.serve starts method m.id m.params)
    | none =>
      if isUnsupported m.method then
        s.whileReady m.id (s.reply m.id (.error (match required Form.any m.params with
          | .ok _ => .methodNotFound none
          | .error reason => .invalidParams reason)))
      else s.reply m.id (.error (.methodNotFound (some m.method)))

end Server

end AnalyzerBridge.Session
