import AnalyzerBridge.Json.Basic

/-!
What the server tells the editor it can do.
-/

namespace AnalyzerBridge

/-- How the editor sends changes: not at all, as whole texts, or as edits. -/
inductive SyncKind where
  | none
  | full
  | incremental
deriving DecidableEq, Repr

def SyncKind.number : SyncKind → Nat
  | none => 0
  | full => 1
  | incremental => 2

structure Capabilities where
  change : SyncKind
  openClose : Bool
  willSave : Bool
  willSaveWaitUntil : Bool
  hover : Bool
  resolvesCompletions : Bool
deriving DecidableEq, Repr

namespace Capabilities

/-- Edits, hovers, and keywords whose details come later. -/
def server : Capabilities where
  change := .incremental
  openClose := true
  willSave := false
  willSaveWaitUntil := false
  hover := true
  resolvesCompletions := true

def toJson (c : Capabilities) : Json :=
  .object [
    ("textDocumentSync", .object [("openClose", .bool c.openClose),
      ("change", .nat c.change.number), ("willSave", .bool c.willSave),
      ("willSaveWaitUntil", .bool c.willSaveWaitUntil)]),
    ("hoverProvider", .bool c.hover),
    ("completionProvider", .object [("resolveProvider", .bool c.resolvesCompletions)])]

end Capabilities

end AnalyzerBridge
