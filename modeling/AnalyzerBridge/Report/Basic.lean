import AnalyzerBridge.Report.Listing
import AnalyzerBridge.Text.Units

/-!
What an analyzer reports about a script: its problems, its symbols and the bytecode listings. Lines
count from 1, columns from 0 in UTF-16 units.
-/

namespace AnalyzerBridge

inductive Verdict where
  | ok
  | failed
deriving DecidableEq, Repr, Inhabited

/-- A problem found in the script. A generic one is the analyzer's own and is not shown. -/
structure Problem where
  line : UInt32
  column : UInt32
  token : String
  description : String
  generic : Bool
  code : Option String
  length : Option UInt32
deriving DecidableEq, Repr, Inhabited

/-- Where a symbol is declared. -/
inductive Scope where
  | global
  | localVar
  | argument
  | upvalue
  | imported
deriving DecidableEq, Repr, Inhabited

/-- A parameter of a module's function. The return type counts if it is itself a function. -/
structure Param where
  name : String
  type : Option String
  isVariadic : Bool
  returnType : Option String
deriving DecidableEq, Repr, Inhabited

/-- A function that a module exports. -/
structure Signature where
  name : String
  returnType : Option String
  params : List Param
deriving DecidableEq, Repr, Inhabited

/-- A symbol of the script. Functions are those of an imported module. -/
structure Symbol where
  scope : Scope
  line : UInt32
  column : UInt32
  name : String
  isConst : Bool
  type : Option String
  returnType : Option String
  functions : List Signature
  listingId : Option UInt32
deriving DecidableEq, Repr, Inhabited

/-- Everything that one run of an analyzer reports. -/
structure Report where
  verdict : Verdict
  problems : List Problem
  symbols : List Symbol
  listings : Listings
deriving DecidableEq, Repr, Inhabited

/-- The report that says nothing. -/
def Report.blank : Report :=
  ⟨.ok, [], [], .empty⟩

/-- The width of a text in UTF-16 units. -/
def width (s : String) : UInt32 :=
  UInt32.ofNat (Text.units s.toList)

theorem toNat_width {s : String} (h : Text.units s.toList < twoTo 32) :
    (width s).toNat = Text.units s.toList :=
  UInt32.toNat_ofNat_of_lt' h

/-- The width of the token at fault: the one reported, else that of the token's text. -/
def Problem.tokenWidth (p : Problem) : UInt32 :=
  p.length.getD (width p.token)

/-- What stands for a type that is not known. -/
def unknownType : String := "unknown"

/-- The type, or `unknown` if there is none or it is empty. -/
def typeOrUnknown : Option String → String
  | none => unknownType
  | some t => if t = "" then unknownType else t

def functionType : String := "function"

def Scope.name : Scope → String
  | global => "Global"
  | localVar => "Local"
  | argument => "Argument"
  | upvalue => "Upvalue"
  | imported => "Import"

def Symbol.typeName (s : Symbol) : String :=
  typeOrUnknown s.type

/-- Is the symbol a function? -/
def Symbol.isCallable (s : Symbol) : Bool :=
  s.typeName == functionType

def Symbol.nameWidth (s : Symbol) : UInt32 :=
  width s.name

/-- The listing that a symbol refers to, if the report has it. -/
def Report.listingOf (r : Report) (s : Symbol) : Option Listing :=
  s.listingId.bind r.listings.find?

end AnalyzerBridge
