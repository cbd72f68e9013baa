/-!
The methods of the protocol by name.
-/

namespace AnalyzerBridge.Session

/-- The methods that this server does something about. -/
inductive Method where
  | start
  | started
  | shutdown
  | exit
  | cancelRequest
  | didOpen
  | didChange
  | didClose
  | hover
  | completion
  | resolveCompletion
deriving DecidableEq, Repr

def Method.names : List (String × Method) :=
  [("initialize", .start), ("initialized", .started), ("shutdown", .shutdown),
    ("exit", .exit), ("$/cancelRequest", .cancelRequest), ("textDocument/didOpen", .didOpen),
    ("textDocument/didChange", .didChange), ("textDocument/didClose", .didClose),
    ("textDocument/hover", .hover), ("textDocument/completion", .completion),
    ("completionItem/resolve", .resolveCompletion)]

def Method.ofName? (name : String) : Option Method :=
  names.lookup name

/-- The methods of the protocol that this server does not support, under the names of their groups. -/
def unsupportedGroups : List (String × List String) :=
  [("textDocument/", ["willSave", "willSaveWaitUntil", "didSave", "declaration", "definition",
      "typeDefinition", "implementation", "references", "prepareCallHierarchy",
      "prepareTypeHierarchy", "documentHighlight", "documentLink", "codeLens", "foldingRange",
      "selectionRange", "documentSymbol", "semanticTokens/full", "semanticTokens/full/delta",
      "semanticTokens/range", "inlineValue", "inlayHint", "moniker", "diagnostic", "signatureHelp",
      "codeAction", "documentColor", "colorPresentation", "formatting", "rangeFormatting",
      "onTypeFormatting", "rename", "prepareRename", "linkedEditingRange"]),
    ("callHierarchy/", ["incomingCalls", "outgoingCalls"]),
    ("typeHierarchy/", ["supertypes", "subtypes"]),
    ("documentLink/", ["resolve"]), ("codeLens/", ["resolve"]), ("inlayHint/", ["resolve"]),
    ("codeAction/", ["resolve"]), ("workspaceSymbol/", ["resolve"]),
    ("workspace/", ["diagnostic", "symbol", "didChangeConfiguration", "didChangeWorkspaceFolders",
      "willCreateFiles", "didCreateFiles", "willRenameFiles", "didRenameFiles", "willDeleteFiles",
      "didDeleteFiles", "didChangeWatchedFiles", "executeCommand"])]

/-- Is this a method of the protocol that the server does not support? -/
def isUnsupported (name : String) : Bool :=
  unsupportedGroups.any fun (group, names) => names.any fun n => group ++ n == name

end AnalyzerBridge.Session
