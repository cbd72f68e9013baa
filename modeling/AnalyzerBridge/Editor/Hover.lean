import AnalyzerBridge.Editor.Position
import AnalyzerBridge.Report.Basic

/-!
What an editor shows at a place: the first symbol whose name is there, described in Markdown, with
its bytecode where the report has it.
-/

namespace AnalyzerBridge

structure Hover where
  markdown : String
  range : Range
deriving DecidableEq, Repr, Inhabited

namespace Symbol

/-- Is the place in the symbol's name or right after it? -/
def covers (s : Symbol) (p : Position) : Bool :=
  s.line ≠ 0 && s.line - 1 == p.line && s.column ≤ p.character &&
    p.character ≤ clampedAdd s.column s.nameWidth

def range (s : Symbol) : Range :=
  .onLine s.line s.column s.nameWidth

/-- The declaration of a symbol, followed by what is known of it. -/
def declaration (s : Symbol) : String :=
  (if s.isConst then "const" else "var") ++
    (if s.typeName = unknownType then "" else " " ++ s.typeName) ++
    " " ++ s.name ++ "; // " ++ s.typeName ++ ", " ++ s.scope.name ++
    (if s.isCallable then ", returns " ++ typeOrUnknown s.returnType else "")

end Symbol

def Param.describe (p : Param) : String :=
  if p.isVariadic then "..."
  else
    let type := typeOrUnknown p.type
    type ++ " " ++ p.name ++
      if type = functionType then " /* -> " ++ typeOrUnknown p.returnType ++ " */" else ""

/-- A signature as a declaration without a body. -/
def Signature.describe (f : Signature) : String :=
  typeOrUnknown f.returnType ++ " " ++ f.name ++ "(" ++
    String.intercalate ", " (f.params.map Param.describe) ++ ") \x7b [native code] \x7d"

/-- The lines that describe a module: its functions, or the import itself if it has none. -/
def Symbol.moduleLines (s : Symbol) : List String :=
  if s.functions.isEmpty then ["import " ++ s.name ++ ";"] else s.functions.map Signature.describe

/-- What describes a symbol: a heading and a block of code. -/
def Symbol.summary (s : Symbol) : String :=
  match s.scope with
  | .imported =>
    "### module " ++ s.name ++ "\n```qscript\n" ++
      String.join (s.moduleLines.map (· ++ "\n")) ++ "```\n"
  | _ => "### " ++ s.name ++ "\n```qscript\n" ++ s.declaration ++ "\n```\n"

def Listing.columnWidth : Nat := 24

/-- One instruction in a listing: its address, what it does, and where it comes from. -/
def Instruction.row (i : Instruction) : String :=
  Text.padded 6 i.address.toNat ++ " " ++ Text.padLeft Listing.columnWidth ' ' i.describe ++
    " [" ++ toString i.line.toNat ++ ":" ++ toString i.column.toNat ++ " '" ++ i.token ++ "']"

/-- A listing as a block of code. -/
def Listing.describe (l : Listing) : String :=
  "```\n; " ++ l.name ++ "\n" ++ String.join (l.instructions.map (·.row ++ "\n")) ++ "```\n"

def Symbol.markdown (s : Symbol) (listing : Option Listing) : String :=
  s.summary ++ match listing with
    | none => ""
    | some l => "\n" ++ l.describe

/-- The first symbol that covers a place. -/
def Report.symbolAt (r : Report) (p : Position) : Option Symbol :=
  r.symbols.find? (·.covers p)

def Report.hoverOf (r : Report) (s : Symbol) : Hover :=
  ⟨s.markdown (r.listingOf s), s.range⟩

def Report.hoverAt (r : Report) (p : Position) : Option Hover :=
  (r.symbolAt p).map r.hoverOf

def Hover.toJson (h : Hover) : Json :=
  .object [("contents", .object [("kind", .text "markdown"), ("value", .text h.markdown)]),
    ("range", h.range.toJson)]

end AnalyzerBridge
