import AnalyzerBridge.Json.Basic

/-!
Completion of keywords. Offered items carry the number of their keyword, from which an item is
completed when the editor asks for its details.
-/

namespace AnalyzerBridge

structure Keyword where
  id : Nat
  label : String
  detail : String
  documentation : String
deriving DecidableEq, Repr

def Keyword.all : List Keyword :=
  [⟨1, "const", "CONST", "const - creates an immutable variable"⟩,
    ⟨2, "var", "VAR", "var - creates a mutable variable"⟩]

/-- A completion item: its members in the protocol, without those that are null. -/
structure CompletionItem where
  members : List (String × Json)
deriving Repr

namespace CompletionItem

def memberNames : List String :=
  ["label", "labelDetails", "kind", "detail", "documentation", "deprecated", "preselect",
    "sortText", "filterText", "insertText", "insertTextFormat", "insertTextMode", "textEdit",
    "additionalTextEdits", "command", "commitCharacters", "data", "tags"]

/-- The protocol's number for keywords among the kinds of items. -/
def keywordKind : Nat := 14

def isNull : Json → Bool
  | .null => true
  | _ => false

def ofJson : Json → CompletionItem
  | .object members => ⟨members.filter fun m => memberNames.contains m.1 && !isNull m.2⟩
  | _ => ⟨[]⟩

def toJson (i : CompletionItem) : Json :=
  .object i.members

def offer (k : Keyword) : CompletionItem :=
  ⟨[("label", .text k.label), ("kind", .nat keywordKind), ("data", .nat k.id)]⟩

def offers : List CompletionItem :=
  Keyword.all.map offer

def keyword? (i : CompletionItem) : Option Keyword :=
  match Json.lookup "data" i.members with
  | some (.number (.int n)) => Keyword.all.find? fun k => (k.id : Int) = n
  | _ => none

/-- Sets a member, and puts it at the end. -/
def setMember (name : String) (v : Json) (members : List (String × Json)) :
    List (String × Json) :=
  members.filter (·.1 ≠ name) ++ [(name, v)]

/-- The item with the details of its keyword; other items stay as they are. -/
def resolve (i : CompletionItem) : CompletionItem :=
  match i.keyword? with
  | none => i
  | some k => ⟨setMember "documentation" (.text k.documentation)
      (setMember "detail" (.text k.detail) i.members)⟩

end CompletionItem

end AnalyzerBridge
