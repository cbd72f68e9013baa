import AnalyzerBridge.Editor.Diagnostic
import AnalyzerBridge.Editor.Hover
import AnalyzerBridge.Run.Outcome
import AnalyzerBridge.Run.Registry
import AnalyzerBridge.Settings.Form

/-!
The analysis service. It takes commands from the editor's side and the ends of runs, one at a time,
and says what is to be done: start runs, let go of runs, publish diagnostics, answer hovers. A run
that reports back counts only if it is still the registered one of its key.
-/

namespace AnalyzerBridge

open Run

/-- What the editor's side asks for. A hover has the number of its request. -/
inductive Command where
  | analyze (uri : String) (version : Int) (text : String)
  | close (uri : String)
  | hover (uri : String) (text : String) (position : Position) (request : Nat)
  | configure (overrides : Json)
  | shutdown

/-- The end of a run, with the key and the generation under which it was registered. -/
structure Completion where
  key : Key
  generation : Nat
  outcome : Outcome
deriving DecidableEq, Repr

/-- What the service does. Before a run is started, the launcher is asked for it, which may fail. -/
inductive Effect where
  | launching (key : Key) (generation : Nat) (invocation : Invocation) (input : String)
  | started (run : Nat) (key : Key) (generation : Nat) (invocation : Invocation) (input : String)
  | released (run : Nat)
  | published (uri : String) (diagnostics : List Diagnostic) (version : Option Int)
  | answered (request : Nat) (hover : Option Hover)
deriving DecidableEq, Repr

/-- What comes of a command that nobody handles: a hover is answered with nothing. -/
def Command.dropped : Command → List Effect
  | hover _ _ _ request => [.answered request none]
  | _ => []

/-- What a diagnostics run is for. -/
structure AnalyzeRequest where
  version : Int
deriving DecidableEq, Repr, Inhabited

/-- What a hover run is for. -/
structure HoverRequest where
  position : Position
  request : Nat
deriving DecidableEq, Repr, Inhabited

structure Service where
  settings : Settings
  /-- The tag of the diagnostics that are published. -/
  source : String
  diagnostics : Registry AnalyzeRequest
  hovers : Registry HoverRequest
  /-- How many runs were started so far; the next one gets this number. -/
  started : Nat
  running : Bool

namespace Service

def initial (settings : Settings) : Service where
  settings := settings
  source := settings.diagnostics.source
  diagnostics := .empty
  hovers := .empty
  started := 0
  running := true

def release {α : Type} (entries : List (Registration α)) : List Effect :=
  entries.map fun e => .released e.run

/-- Answers the hovers of registered runs with nothing. -/
def dismiss (entries : List (Registration HoverRequest)) : List Effect :=
  entries.map fun e => .answered e.context.request none

/-- The registration of a key as a list of at most one. -/
def held {α : Type} (r : Registry α) (key : Key) : List (Registration α) :=
  (r.find? key).toList

variable (starts : Invocation → Bool) (s : Service)

/-- The number of the run to be started, if it starts. -/
def nextRun (invocation : Invocation) : Option Nat :=
  if starts invocation then some s.started else none

/-- The effects of asking for a run, which may start. -/
def startEffect (run : Option Nat) (key : Key) (generation : Nat) (invocation : Invocation)
    (input : String) : List Effect :=
  .launching key generation invocation input ::
    run.toList.map fun run => .started run key generation invocation input

/-- A new text of a document: its diagnostics run is replaced. -/
def analyze (uri : String) (version : Int) (text : String) : Service × List Effect :=
  let key : Key := ⟨uri, .diagnostics⟩
  let invocation := s.settings.analyzer.invocation key.purpose
  let run := s.nextRun starts invocation
  ({ s with
      diagnostics := s.diagnostics.replace key ⟨version⟩ run
      started := s.started + run.toList.length },
    release (held s.diagnostics key) ++
      startEffect run key s.diagnostics.next invocation text)

/-- A hover: the hover run of its document is replaced, and the earlier hover is answered with
nothing. If no run starts, so is this one. -/
def hover (uri : String) (text : String) (request : HoverRequest) : Service × List Effect :=
  let key : Key := ⟨uri, .symbols⟩
  let invocation := s.settings.analyzer.invocation key.purpose
  let run := s.nextRun starts invocation
  ({ s with
      hovers := s.hovers.replace key request run
      started := s.started + run.toList.length },
    release (held s.hovers key) ++ dismiss (held s.hovers key) ++
      startEffect run key s.hovers.next invocation text ++
      if run.isNone then [.answered request.request none] else [])

/-- A document is closed: its runs are let go, and its diagnostics are cleared. -/
def close (uri : String) : Service × List Effect :=
  let forDiagnostics := held s.diagnostics ⟨uri, .diagnostics⟩
  let forHover := held s.hovers ⟨uri, .symbols⟩
  ({ s with
      diagnostics := s.diagnostics.erase ⟨uri, .diagnostics⟩
      hovers := s.hovers.erase ⟨uri, .symbols⟩ },
    release forDiagnostics ++ release forHover ++ dismiss forHover ++ [.published uri [] none])

/-- Lays overrides over the settings; those that are not valid change nothing. -/
def configure (overrides : Json) : Service :=
  match s.settings.withOverrides overrides with
  | .ok settings => { s with settings := settings, source := settings.diagnostics.source }
  | .error _ => s

/-- Ends the service: all runs are let go, and their hovers are answered with nothing. -/
def stop : Service × List Effect :=
  ({ s with diagnostics := s.diagnostics.clear, hovers := s.hovers.clear, running := false },
    release s.diagnostics.entries ++ release s.hovers.entries ++ dismiss s.hovers.entries)

/-- Handles a command. `starts` says which invocations would start. A service that has ended drops
all commands. -/
def handle (c : Command) : Service × List Effect :=
  if s.running then
    match c with
    | .analyze uri version text => s.analyze starts uri version text
    | .close uri => s.close uri
    | .hover uri text position request => s.hover starts uri text ⟨position, request⟩
    | .configure overrides => (s.configure overrides, [])
    | .shutdown => s.stop
  else (s, c.dropped)

/-- The report in an outcome, if it has one that can be read. -/
def report? (o : Outcome) : Option Report :=
  o.output?.bind fun output => (s.settings.analyzer.format.read output).toOption

/-- Handles the end of a diagnostics run: its problems are published. -/
def completeDiagnostics (c : Completion) : Service × List Effect :=
  let (registry, registration) := s.diagnostics.complete c.key c.generation
  ({ s with diagnostics := registry },
    match registration with
    | none => []
    | some e => .released e.run :: match s.report? c.outcome with
      | none => []
      | some r => [.published c.key.uri (r.diagnostics s.source) (some e.context.version)])

/-- Handles the end of a hover run: its hover is answered. -/
def completeHover (c : Completion) : Service × List Effect :=
  let (registry, registration) := s.hovers.complete c.key c.generation
  ({ s with hovers := registry },
    match registration with
    | none => []
    | some e => [.released e.run,
        .answered e.context.request ((s.report? c.outcome).bind (·.hoverAt e.context.position))])

/-- Handles the end of a run. A service that has ended takes no notice. -/
def complete (c : Completion) : Service × List Effect :=
  if s.running then
    match c.key.purpose with
    | .diagnostics => s.completeDiagnostics c
    | .symbols => s.completeHover c
  else (s, [])

end Service

end AnalyzerBridge
