import AnalyzerBridge.Editor.Workspace
import AnalyzerBridge.Service.System

/-!
The editor's side and the analysis service together. A message of the editor is handled at once, up
to the command that it sends; the service comes to the command at some later time.
-/

namespace AnalyzerBridge

open Run

/-- The open documents, and the system that analyses them. -/
structure Bridge where
  workspace : Workspace
  system : System

/-- What may happen between the editor and the analyzer. -/
inductive BridgeEvent where
  | edited (e : EditorEvent)
  | configured (overrides : Json)
  | shutDown
  | taken (starts : Invocation → Bool)
  | ended (run : Nat) (o : Outcome)
  | attended (place : Nat)

namespace Bridge

/-- No open documents, and a system that has done nothing yet. -/
def initial (settings : Settings) : Bridge :=
  ⟨.empty, .initial settings⟩

/-- The workspace after an event, and what happens to the system, if anything. -/
def pass (b : Bridge) : BridgeEvent → Workspace × Option Event
  | .edited e =>
    let (workspace, c) := b.workspace.handle e
    (workspace, c.map .sent)
  | .configured overrides => (b.workspace, some (.sent (.configure overrides)))
  | .shutDown => (b.workspace, some (.sent .shutdown))
  | .taken starts => (b.workspace, some (.taken starts))
  | .ended run o => (b.workspace, some (.ended run o))
  | .attended place => (b.workspace, some (.attended place))

/-- Both sides after an event, and what the service did. -/
def step (b : Bridge) (e : BridgeEvent) : Bridge × List Effect :=
  let (workspace, event) := b.pass e
  match event with
  | none => ({ b with workspace := workspace }, [])
  | some event =>
    let (system, effects) := b.system.step event
    (⟨workspace, system⟩, effects)

end Bridge

end AnalyzerBridge
