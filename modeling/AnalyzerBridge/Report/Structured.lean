import AnalyzerBridge.Json.Form
import AnalyzerBridge.Report.Basic

/-!
Reports written as one JSON value. Each record has its form: the names of its fields, those that
may be absent, and the other spellings that are understood.
-/

namespace AnalyzerBridge

open Form FieldForm

def Verdict.form : Form Verdict :=
  choice [("OK", .ok), ("Ok", .ok), ("ok", .ok),
    ("FAILED", .failed), ("Failed", .failed), ("failed", .failed)]

def Scope.form : Form Scope :=
  choice [("Global", .global), ("Local", .localVar), ("Argument", .argument), ("Upvalue", .upvalue),
    ("Import", .imported)]

def OperandSize.form : Form OperandSize :=
  choice [("SIMPLE", .simple), ("LONG", .long), ("SHORT", .short)]

def Direction.form : Form Direction :=
  choice [("forward", .forward), ("FORWARD", .forward), ("Forward", .forward),
    ("backward", .backward), ("BACKWARD", .backward), ("Backward", .backward)]

def Problem.form : Form Problem :=
  record "struct ErrorRecord" ⟨0, 0, "", "", false, none, none⟩ [
    need "lineNr" u32 fun v p => { p with line := v },
    need "colNr" u32 fun v p => { p with column := v },
    may "token" text fun v p => { p with token := v },
    need "desc" text fun v p => { p with description := v },
    may "generic" bool (fun v p => { p with generic := v }) ["isGeneric"],
    may "code" (optional text) fun v p => { p with code := v },
    may "length" (optional u32) fun v p => { p with length := v }]

def Param.form : Form Param :=
  record "struct FunctionParam" ⟨"", none, false, none⟩ [
    may "name" text fun v p => { p with name := v },
    may "type" (optional text) fun v p => { p with type := v },
    may "isVariadic" bool fun v p => { p with isVariadic := v },
    may "retType" (optional text) (fun v p => { p with returnType := v }) ["returnType"]]

def Signature.form : Form Signature :=
  record "struct ModuleFunction" ⟨"", none, []⟩ [
    need "name" text fun v f => { f with name := v },
    may "retType" (optional text) (fun v f => { f with returnType := v }) ["returnType"],
    may "params" (list Param.form) fun v f => { f with params := v }]

def Symbol.form : Form Symbol :=
  record "struct SymbolRecord" ⟨.global, 0, 0, "", false, none, none, [], none⟩ [
    need "context" Scope.form fun v s => { s with scope := v },
    need "lineNr" u32 fun v s => { s with line := v },
    need "colNr" u32 fun v s => { s with column := v },
    need "name" text fun v s => { s with name := v },
    may "isConst" bool fun v s => { s with isConst := v },
    may "type" (optional text) fun v s => { s with type := v },
    may "returnType" (optional text) fun v s => { s with returnType := v },
    may "functions" (list Signature.form) fun v s => { s with functions := v },
    may "disasmId" (optional u32) fun v s => { s with listingId := v }]

def Capture.form : Form Capture :=
  record "struct UpvalueCapture" ⟨0, false⟩ [
    need "index" u32 fun v c => { c with index := v },
    may "isLocal" bool fun v c => { c with isLocal := v }]

def Operand.jumpForm : Form Operand :=
  map (fun (target, offset, direction) => .jump target offset direction)
    (objectOnly "struct variant OpcodeAttributes::Jump" (0, 0, .forward) [
      need "target" u32 fun v j => (v, j.2),
      need "offset" i64 fun v j => (j.1, v, j.2.2),
      may "direction" Direction.form fun v j => (j.1, j.2.1, v)])

def Operand.closureForm : Form Operand :=
  map .closure
    (objectOnly "struct variant OpcodeAttributes::Closure" [] [
      need "upvalues" (list Capture.form) fun v _ => v])

/-- The form of an operand: a jump if it has the fields of one, else a closure. -/
def Operand.form : Form Operand :=
  firstOf "OpcodeAttributes" [jumpForm, closureForm]

def Instruction.form : Form Instruction :=
  record "struct Opcode" ⟨0, "", 0, 0, "", .simple, none⟩ [
    need "address" u32 fun v i => { i with address := v },
    need "opcode" text (fun v i => { i with mnemonic := v }) ["mnemonic"],
    may "lineNr" u32 fun v i => { i with line := v },
    may "colNr" u32 fun v i => { i with column := v },
    may "token" text fun v i => { i with token := v },
    may "size" OperandSize.form fun v i => { i with size := v },
    may "attributes" (optional Operand.form) fun v i => { i with operand := v }]

def Listing.form : Form Listing :=
  record "struct Disassembly" ⟨0, "", []⟩ [
    may "id" u32 fun v l => { l with id := v },
    need "name" text fun v l => { l with name := v },
    may "opcodes" (list Instruction.form) fun v l => { l with instructions := v }]

namespace Listings

/-- Named listings in ascending order of the names, the last of each name kept. -/
def byName (named : List (String × Listing)) : List (String × Listing) :=
  named.foldl (fun done m => Json.put m.1 (fun _ => m.2) done) []

/-- Keeps listings under the numbers that are their names, one after the other. -/
def insertNamed (kept : Listings) : List (String × Listing) → Except Fault Listings
  | [] => .ok kept
  | (name, l) :: rest =>
    match Text.numeral? (twoTo 32) name.toList with
    | none => .error (.refused ("invalid disassembly id " ++ Fault.ticked name))
    | some n =>
      let id := UInt32.ofNat n
      insertNamed (kept.insert id { l with id := id }) rest

/-- Listings written as a list, or as an object whose names are the numbers; null for none. -/
def ofJson : Json → Except Fault Listings
  | .null => .ok empty
  | .list items => match items.mapM Listing.form.ofJson with
    | .ok ls => .ok (ofList ls)
    | .error _ => .error (.noAlternative "Wire")
  | .object members =>
    match members.mapM fun m => (Listing.form.ofJson m.2).map (m.1, ·) with
    | .ok named => insertNamed empty (byName named)
    | .error _ => .error (.noAlternative "Wire")
  | _ => .error (.noAlternative "Wire")

def form : Form Listings :=
  ofValue ofJson

end Listings

def Report.form : Form Report :=
  record "struct AnalysisResult" .blank [
    may "status" Verdict.form fun v r => { r with verdict := v },
    may "errors" (list Problem.form) fun v r => { r with problems := v },
    may "symbols" (list Symbol.form) fun v r => { r with symbols := v },
    may "disasm" Listings.form fun v r => { r with listings := v }]

def Report.ofText (s : String) : Except Fault Report :=
  Json.readWhole Report.form.read s

end AnalyzerBridge
