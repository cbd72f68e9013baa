import AnalyzerBridge.Proofs.Json.Forms
import AnalyzerBridge.Proofs.Report.Listings

/-! How reports are written. For each record the slots say which members there are, under which names,
when they may be left out and what is written in them. Main statement: `Report.ofText_spelling`. -/
namespace AnalyzerBridge

open Json Form

/-- The text of one of some names. -/
def NameText (names : List String) (s : List Char) : Prop :=
  ∃ name ∈ names, SpellsScalar (.text name) s

/-- The value of one of some names. -/
def NameValue (names : List String) (v : Json) : Prop :=
  ∃ name ∈ names, v = .text name

section Slots

def Verdict.names : Verdict → List String
  | ok => ["OK", "Ok", "ok"]
  | failed => ["failed", "Failed", "FAILED"]

def Direction.names : Direction → List String
  | forward => ["forward", "Forward", "FORWARD"]
  | backward => ["backward", "Backward", "BACKWARD"]

def OperandSize.name : OperandSize → String
  | simple => "SIMPLE"
  | long => "LONG"
  | short => "SHORT"

def Problem.slots (p : Problem) : List (Slot (List Char)) := [
  .need ["lineNr"] (SpellsScalar (.nat p.line.toNat)),
  .need ["colNr"] (SpellsScalar (.nat p.column.toNat)),
  .may ["token"] (p.token = "") (SpellsScalar (.text p.token)),
  .need ["desc"] (SpellsScalar (.text p.description)),
  .may ["generic", "isGeneric"] (p.generic = false) (SpellsScalar (.bool p.generic)),
  .may ["code"] (p.code = none) (SpellsScalar (.ofOption .text p.code)),
  .may ["length"] (p.length = none) (SpellsScalar (.ofOption (fun n => .nat n.toNat) p.length))]

def Param.slots (p : Param) : List (Slot (List Char)) := [
  .may ["name"] (p.name = "") (SpellsScalar (.text p.name)),
  .may ["type"] (p.type = none) (SpellsScalar (.ofOption .text p.type)),
  .may ["isVariadic"] (p.isVariadic = false) (SpellsScalar (.bool p.isVariadic)),
  .may ["retType", "returnType"] (p.returnType = none) (SpellsScalar (.ofOption .text p.returnType))]

def Signature.slots (f : Signature) : List (Slot (List Char)) := [
  .need ["name"] (SpellsScalar (.text f.name)),
  .may ["retType", "returnType"] (f.returnType = none) (SpellsScalar (.ofOption .text f.returnType)),
  .may ["params"] (f.params = []) (ListText (fun p => RecordText p.slots) f.params)]

def Symbol.slots (s : Symbol) : List (Slot (List Char)) := [
  .need ["context"] (SpellsScalar (.text s.scope.name)),
  .need ["lineNr"] (SpellsScalar (.nat s.line.toNat)),
  .need ["colNr"] (SpellsScalar (.nat s.column.toNat)),
  .need ["name"] (SpellsScalar (.text s.name)),
  .may ["isConst"] (s.isConst = false) (SpellsScalar (.bool s.isConst)),
  .may ["type"] (s.type = none) (SpellsScalar (.ofOption .text s.type)),
  .may ["returnType"] (s.returnType = none) (SpellsScalar (.ofOption .text s.returnType)),
  .may ["functions"] (s.functions = []) (ListText (fun f => RecordText f.slots) s.functions),
  .may ["disasmId"] (s.listingId = none)
    (SpellsScalar (.ofOption (fun n => .nat n.toNat) s.listingId))]

def Capture.slots (c : Capture) : List (Slot Json) := [
  .need ["index"] (· = .nat c.index.toNat),
  .may ["isLocal"] (c.isLocal = false) (· = .bool c.isLocal)]

def Operand.slots : Operand → List (Slot Json)
  | jump target offset direction => [
    .need ["target"] (· = .nat target.toNat),
    .need ["offset"] (· = .int offset.toInt),
    .may ["direction"] (direction = .forward) (NameValue direction.names)]
  | closure captures => [.need ["upvalues"] (ListValue (fun c => RecordValue c.slots) captures)]

/-- The value of an operand. That of a closure has no target, as it would be a jump with one. -/
inductive OperandValue : Operand → Json → Prop
  | jump {target : UInt32} {offset : Int64} {direction : Direction} {v : Json} :
      RecordValue (Operand.jump target offset direction).slots v →
      OperandValue (.jump target offset direction) v
  | closure {captures : List Capture} {members : List (String × Json)} :
      RecordValue (Operand.closure captures).slots (.object members) →
      (∀ m ∈ members, m.1 ≠ "target") → OperandValue (.closure captures) (.object members)

def Instruction.slots (i : Instruction) : List (Slot Json) := [
  .need ["address"] (· = .nat i.address.toNat),
  .need ["opcode", "mnemonic"] (· = .text i.mnemonic),
  .may ["lineNr"] (i.line = 0) (· = .nat i.line.toNat),
  .may ["colNr"] (i.column = 0) (· = .nat i.column.toNat),
  .may ["token"] (i.token = "") (· = .text i.token),
  .may ["size"] (i.size = .simple) (· = .text i.size.name),
  .may ["attributes"] (i.operand = none) (OptionValue OperandValue i.operand)]

def Listing.slots (l : Listing) : List (Slot Json) := [
  .may ["id"] (l.id = 0) (· = .nat l.id.toNat),
  .need ["name"] (· = .text l.name),
  .may ["opcodes"] (l.instructions = [])
    (ListValue (fun i => RecordValue i.slots) l.instructions)]

/-- The value of some listings that are written as a list. -/
def ListedValue (ls : List Listing) (v : Json) : Prop :=
  ListValue (fun l => RecordValue l.slots) ls v

/-- What is written for a report, if `V` says which values its listings have. They may open all
brackets that are left inside a report. -/
def Report.slots (V : Json → Prop) (r : Report) : List (Slot (List Char)) := [
  .may ["status"] (r.verdict = .ok) (NameText r.verdict.names),
  .may ["errors"] (r.problems = []) (ListText (fun p => RecordText p.slots) r.problems),
  .may ["symbols"] (r.symbols = []) (ListText (fun s => RecordText s.slots) r.symbols),
  .may ["disasm"] (r.listings = .empty) (fun s => ∃ v, V v ∧ Spells (maxLevels - 1) v s)]

end Slots

section Values

variable {v : Json} {members : List (String × Json)}

theorem Capture.ofJson_form {c : Capture} (h : RecordValue c.slots v) :
    Capture.form.ofJson v = .ok c := by
  refine ofJson_record
    (.cons (serves_need_value fun _ hv => hv ▸ ofJson_u32 _) <|
    .cons (serves_may_value (fun _ hv => hv ▸ rfl) rfl) .nil)
    (by simp [Slot.need, Slot.may]) ⟨by simp, by simp, fun _ => rfl⟩ h

theorem Direction.ofJson_form {d : Direction} (h : NameValue d.names v) :
    Direction.form.ofJson v = .ok d := by
  obtain ⟨name, hname, rfl⟩ := h
  apply ofJson_choice
  revert name
  cases d <;> decide

theorem Operand.ofJson_jumpForm {target : UInt32} {offset : Int64} {direction : Direction}
    (h : RecordValue (jump target offset direction).slots v) :
    jumpForm.ofJson v = .ok (jump target offset direction) := by
  refine ofJson_map (a := (target, offset, direction)) (ofJson_objectOnly
    (.cons (serves_need_value fun _ hv => hv ▸ ofJson_u32 _) <|
    .cons (serves_need_value fun _ hv => hv ▸ ofJson_i64 _) <|
    .cons (serves_may_value (fun _ hv => Direction.ofJson_form hv) rfl) .nil)
    (by simp [Slot.need, Slot.may]) ⟨by simp, by simp, fun _ => rfl⟩ h)

theorem Operand.ofJson_closureForm {captures : List Capture}
    (h : RecordValue (closure captures).slots v) : closureForm.ofJson v = .ok (closure captures) := by
  refine ofJson_map (ofJson_objectOnly
    (.cons (serves_need_value fun _ hv => ofJson_list hv fun _ _ => Capture.ofJson_form) .nil)
    (by simp [Slot.need]) ⟨by simp, by simp, fun _ => rfl⟩ h)

/-- Without a target there is no jump. -/
theorem Operand.ofJson_jumpForm_of_no_target (h : ∀ m ∈ members, m.1 ≠ "target") :
    (jumpForm.ofJson (.object members)).toOption = none := by
  cases hj : jumpForm.ofJson (.object members) with
  | error => rfl
  | ok o =>
    obtain ⟨j, hj, _⟩ := Except.bind_eq_ok.1 hj
    rcases mem_of_takeFields hj List.mem_cons_self rfl with hno | ⟨m, hm, g, hg, hkey, hname⟩
    · cases hno
    · simp only [List.mem_cons, List.not_mem_nil, or_false] at hg
      rcases hg with rfl | rfl | rfl
      · exact absurd (answersTo_iff.1 hkey) (by simpa using h m hm)
      · exact absurd hname (by decide)
      · exact absurd hname (by decide)

theorem Operand.ofJson_form {o : Operand} (h : OperandValue o v) : Operand.form.ofJson v = .ok o := by
  apply ofJson_firstOf
  cases h with
  | jump h => simp [ofJson_jumpForm h, Except.toOption]
  | closure h hno =>
    rw [List.findSome?_cons, ofJson_jumpForm_of_no_target hno]
    simp [ofJson_closureForm h, Except.toOption]

theorem OperandSize.ofJson_form {z : OperandSize} (h : v = .text z.name) :
    OperandSize.form.ofJson v = .ok z := by
  rw [h]
  apply ofJson_choice
  cases z <;> decide

theorem OperandValue.ne_null {o : Operand} : ¬OperandValue o .null := by
  rintro ⟨⟨⟩⟩

theorem Instruction.ofJson_form {i : Instruction} (h : RecordValue i.slots v) :
    Instruction.form.ofJson v = .ok i := by
  refine ofJson_record
    (.cons (serves_need_value fun _ hv => hv ▸ ofJson_u32 _) <|
    .cons (serves_need_value fun _ hv => hv ▸ rfl) <|
    .cons (serves_may_value (fun _ hv => hv ▸ ofJson_u32 _) rfl) <|
    .cons (serves_may_value (fun _ hv => hv ▸ ofJson_u32 _) rfl) <|
    .cons (serves_may_value (fun _ hv => hv ▸ rfl) rfl) <|
    .cons (serves_may_value (fun _ => OperandSize.ofJson_form) rfl) <|
    .cons (serves_may_value (fun _ hv => ofJson_optional hv (fun _ _ => Operand.ofJson_form)
      fun _ => OperandValue.ne_null) rfl) .nil)
    (by simp [Slot.need, Slot.may]) ⟨by simp, by simp, fun _ => rfl⟩ h

theorem Listing.ofJson_form {l : Listing} (h : RecordValue l.slots v) :
    Listing.form.ofJson v = .ok l := by
  refine ofJson_record
    (.cons (serves_may_value (fun _ hv => hv ▸ ofJson_u32 _) rfl) <|
    .cons (serves_need_value fun _ hv => hv ▸ rfl) <|
    .cons (serves_may_value (fun _ hv => ofJson_list hv fun _ _ => Instruction.ofJson_form) rfl) .nil)
    (by simp [Slot.need, Slot.may]) ⟨by simp, by simp, fun _ => rfl⟩ h

/-- A list of listings is kept as these listings. -/
theorem Listings.ofJson_list {ls : List Listing} (h : ListedValue ls v) :
    ofJson v = .ok (ofList ls) := by
  obtain ⟨h⟩ := h
  rw [ofJson, mapM_ok (h.imp fun _ _ => Listing.ofJson_form)]

end Values

section Texts

variable {levels : Nat} {s : List Char}

theorem Problem.reads_form {p : Problem} (h : RecordText p.slots s) :
    Reads (Problem.form.read (levels + 1)) p s := by
  refine reads_record
    (.cons (serves_need_text fun _ => reads_u32) <|
    .cons (serves_need_text fun _ => reads_u32) <|
    .cons (serves_may_text (fun _ => reads_textAs) rfl) <|
    .cons (serves_need_text fun _ => reads_textAs) <|
    .cons (serves_may_text (fun _ => reads_bool) rfl) <|
    .cons (serves_may_text (fun _ => reads_optional_text) rfl) <|
    .cons (serves_may_text (fun _ => reads_optional_u32) rfl) .nil)
    (by simp [Slot.need, Slot.may]) ⟨by simp, by simp, fun _ => rfl⟩ h

theorem Param.reads_form {p : Param} (h : RecordText p.slots s) :
    Reads (Param.form.read (levels + 1)) p s := by
  refine reads_record
    (.cons (serves_may_text (fun _ => reads_textAs) rfl) <|
    .cons (serves_may_text (fun _ => reads_optional_text) rfl) <|
    .cons (serves_may_text (fun _ => reads_bool) rfl) <|
    .cons (serves_may_text (fun _ => reads_optional_text) rfl) .nil)
    (by simp [Slot.may]) ⟨by simp, by simp, fun _ => rfl⟩ h

theorem Signature.reads_form {f : Signature} (h : RecordText f.slots s) :
    Reads (Signature.form.read (levels + 3)) f s := by
  refine reads_record
    (.cons (serves_need_text fun _ => reads_textAs) <|
    .cons (serves_may_text (fun _ => reads_optional_text) rfl) <|
    .cons (serves_may_text (fun _ hs => reads_list hs fun _ _ => Param.reads_form) rfl) .nil)
    (by simp [Slot.need, Slot.may]) ⟨by simp, by simp, fun _ => rfl⟩ h

theorem Scope.reads_form {x : Scope} (h : SpellsScalar (.text x.name) s) :
    Reads (Scope.form.read levels) x s := by
  refine reads_choice ?_ h
  cases x <;> decide

theorem Verdict.reads_form {x : Verdict} (h : NameText x.names s) :
    Reads (Verdict.form.read levels) x s := by
  obtain ⟨name, hname, hs⟩ := h
  refine reads_choice ?_ hs
  clear hs
  revert name
  cases x <;> decide

theorem Symbol.reads_form {x : Symbol} (h : RecordText x.slots s) :
    Reads (Symbol.form.read (levels + 5)) x s := by
  refine reads_record
    (.cons (serves_need_text fun _ => Scope.reads_form) <|
    .cons (serves_need_text fun _ => reads_u32) <|
    .cons (serves_need_text fun _ => reads_u32) <|
    .cons (serves_need_text fun _ => reads_textAs) <|
    .cons (serves_may_text (fun _ => reads_bool) rfl) <|
    .cons (serves_may_text (fun _ => reads_optional_text) rfl) <|
    .cons (serves_may_text (fun _ => reads_optional_text) rfl) <|
    .cons (serves_may_text (fun _ hs => reads_list hs fun _ _ => Signature.reads_form) rfl) <|
    .cons (serves_may_text (fun _ => reads_optional_u32) rfl) .nil)
    (by simp [Slot.need, Slot.may]) ⟨by simp, by simp, fun _ => rfl⟩ h

variable {V : Json → Prop} {r : Report}

theorem Report.reads_form (hV : ∀ v, V v → Listings.ofJson v = .ok r.listings)
    (h : RecordText (r.slots V) s) : Reads (Report.form.read maxLevels) r s := by
  refine reads_record
    (.cons (serves_may_text (fun _ => Verdict.reads_form) rfl) <|
    .cons (serves_may_text (fun _ hs => reads_list hs fun _ _ => Problem.reads_form) rfl) <|
    .cons (serves_may_text (fun _ hs => reads_list hs fun _ _ => Symbol.reads_form) rfl) <|
    .cons (serves_may_text (fun _ ⟨v, hv, hs⟩ => reads_ofValue hs (hV v hv)) rfl) .nil)
    (by simp [Slot.may]) ⟨by simp, by simp, fun _ => rfl⟩ h

/-- The text is that of the report, with spaces around it. -/
def Report.WrittenBy (V : Json → Prop) (r : Report) (text : String) : Prop :=
  ∃ g s h, text.toList = g ++ (s ++ h) ∧ Gap g ∧ Gap h ∧ RecordText (r.slots V) s

theorem Report.ofText_writtenBy {text : String}
    (hV : ∀ v, V v → Listings.ofJson v = .ok r.listings) (h : r.WrittenBy V text) :
    ofText text = .ok r := by
  obtain ⟨g, s, h, heq, hg, hh, hs⟩ := h
  have hread := (reads_form hV hs).eq g h hg hh.delimited
  simp [ofText, readWhole, heq, hread, bind, Except.bind, finish, hh.skipSpace]

end Texts

theorem Report.ofText_listed {ls : List Listing} {r : Report} {text : String}
    (hr : r.listings = .ofList ls) (h : r.WrittenBy (ListedValue ls) text) : ofText text = .ok r :=
  ofText_writtenBy (fun _ hv => (Listings.ofJson_list hv).trans (congrArg _ hr.symm)) h

/-- A report is written with its listings in a list, in any order. -/
def Report.SpelledBy (r : Report) (text : String) : Prop :=
  ∃ ls : List Listing, ls.Perm (r.listings.entries.map (·.2)) ∧ r.WrittenBy (ListedValue ls) text

/-- A report is read from each of its texts. -/
theorem Report.ofText_spelling {r : Report} {text : String} (hr : r.listings.Sound)
    (h : r.SpelledBy text) : ofText text = .ok r := by
  obtain ⟨ls, hperm, h⟩ := h
  exact ofText_listed (Listings.ofList_of_perm hr hperm).symm h

section Sample

def Problem.sample : Problem := ⟨1, 3, "", "a]: OK", false, some "E[]", some 2⟩

def Problem.sampleText : String :=
  "\x7b\"desc\":\"\\u0061]: OK\" ,\"isGeneric\":false,\"colNr\":3,\"lineNr\":1,\"length\":2,\"code\":\"E[]\"\x7d"

theorem Problem.recordText_sample : RecordText sample.slots sampleText.toList := by
  have hspace : Gap [' '] := by simp [Gap]
  have ha : UnitText 'a'.toNat ['\\', 'u', '0', '0', '6', '1'] :=
    .digits (i := 0) (j := 0) (k := 6) (l := 1) (by decide) (by decide) (by decide) (by decide)
  have htext : SpellsText "a]: OK".toList
      (['\\', 'u', '0', '0', '6', '1'] ++ [']', ':', ' ', 'O', 'K']) := by
    have hrest : SpellsText [']', ':', ' ', 'O', 'K'] [']', ':', ' ', 'O', 'K'] :=
      spellsText_self (by decide)
    simpa using SpellsText.unit (c := 'a') ha hrest
  have hcode : SpellsScalar (.text "E[]") ('"' :: ("E[]".toList ++ ['"'])) :=
    .text (spellsText_self (by decide))
  have hone : SpellsScalar (.nat 1) ['1'] := .int (by decide) (by decide)
  have htwo : SpellsScalar (.nat 2) ['2'] := .int (by decide) (by decide)
  have hthree : SpellsScalar (.nat 3) ['3'] := .int (by decide) (by decide)
  have hfills : ∀ d x, SpellsScalar (.text "a]: OK") d → SpellsScalar (.text "E[]") x →
      Fills sample.slots (fun s => ∃ levels, WellFormed levels s)
        [("desc", d), ("isGeneric", "false".toList), ("colNr", ['3']), ("lineNr", ['1']),
          ("length", ['2']), ("code", x)] := by
    intro d x hdesc hcode
    constructor
    · simp [Problem.slots, Slot.need, Slot.may, Slot.among, sample]
      exact ⟨hone, hthree, hdesc, .no, hcode, htwo⟩
    · simp [Problem.slots, Slot.need, Slot.may]
  have hrecord := RecordText.object (.members <|
    .first gap_nil (memberText_self "desc" _ (by decide) rfl) <|
    .next hspace gap_nil (memberText_self "isGeneric" _ (by decide) rfl) <|
    .next gap_nil gap_nil (memberText_self "colNr" _ (by decide) rfl) <|
    .next gap_nil gap_nil (memberText_self "lineNr" _ (by decide) rfl) <|
    .next gap_nil gap_nil (memberText_self "length" _ (by decide) rfl) <|
    .next gap_nil gap_nil (memberText_self "code" _ (by decide) rfl) <|
    .close gap_nil) (hfills _ _ (.text htext) hcode)
  simpa [sampleText] using hrecord

/-- Members in another order, an escape, spaces, other names, a member of no record, a listing. -/
theorem Report.ofText_spelling_sample :
    let r : Report := ⟨.failed, [.sample], [], ⟨[(4, ⟨4, "f", []⟩)]⟩⟩
    let text := "\x7b\"disasm\":[\x7b\"name\":\"f\",\"id\":4\x7d],\"x\":1e999,\"errors\":[" ++
      Problem.sampleText ++ "],\"status\":\"Failed\"\x7d\n"
    r.listings.Sound ∧ r.SpelledBy text ∧ ofText text = .ok r := by
  intro r text
  have hfour : SpellsScalar (.nat 4) ['4'] := .int (by decide) (by decide)
  have hf : SpellsScalar (.text "f") ['"', 'f', '"'] :=
    .text (t := "f") (b := ['f']) (spellsText_self (by decide))
  have hfailed : SpellsScalar (.text "Failed") ('"' :: ("Failed".toList ++ ['"'])) :=
    .text (spellsText_self (by decide))
  have hhuge : WellFormedScalar ['1', 'e', '9', '9', '9'] := by
    have hsign : ([], false) ∈ [([], false), (['+'], false), (['-'], true)] := by decide
    have hexp : ExponentText (some (false, ['9', '9', '9'])) ['e', '9', '9', '9'] :=
      .letter (by decide) hsign (by simp [Digits])
    have hone : Digits ['1'] := by simp [Digits]
    exact .number (.plain (.parts hone (by decide) .absent hexp))
  have hlisted : ListedValue [⟨4, "f", []⟩]
      (.list [.object [("name", .text "f"), ("id", .nat 4)]]) := by
    refine .items (.cons (.object ⟨?_, ?_⟩) .nil)
    · simp [Listing.slots, Slot.need, Slot.may, Slot.among]
    · simp
  have hobject : Spells 125 (.object [("name", .text "f"), ("id", .nat 4)]) _ :=
    .inr (.inr ⟨_, rfl, .members <|
      .first gap_nil (memberText_self "name" _ (by decide) (spells_scalar hf)) <|
      .next gap_nil gap_nil (memberText_self "id" _ (by decide) (spells_scalar hfour)) <|
      .close gap_nil⟩)
  have hlist : Spells 126 (.list [.object [("name", .text "f"), ("id", .nat 4)]]) _ :=
    .inr (.inl ⟨_, rfl, .items (.first gap_nil hobject (.close gap_nil))⟩)
  have hproblems : ListText (fun p => RecordText (Problem.slots p)) [.sample] _ :=
    .items (.first gap_nil Problem.recordText_sample (.close gap_nil))
  have hfills : ∀ d x e v, Spells 126 (.list [.object [("name", .text "f"), ("id", .nat 4)]]) d →
      WellFormedScalar x → ListText (fun p => RecordText (Problem.slots p)) [.sample] e →
      SpellsScalar (.text "Failed") v →
      Fills (r.slots (ListedValue [⟨4, "f", []⟩])) (fun s => ∃ levels, WellFormed levels s)
        [("disasm", d), ("x", x), ("errors", e), ("status", v)] := by
    intro d x e v hd hx he hv
    constructor
    · simp [Report.slots, Slot.may, Slot.among, r]
      exact ⟨⟨"Failed", by decide, hv⟩, he, _, hlisted, hd⟩
    · simp [Report.slots, Slot.may]
      exact ⟨0, hx⟩
  have hreport := RecordText.object (.members <|
    .first gap_nil (memberText_self "disasm" _ (by decide) rfl) <|
    .next gap_nil gap_nil (memberText_self "x" _ (by decide) rfl) <|
    .next gap_nil gap_nil (memberText_self "errors" _ (by decide) rfl) <|
    .next gap_nil gap_nil (memberText_self "status" _ (by decide) rfl) <|
    .close gap_nil) (hfills _ _ _ _ hlist hhuge hproblems hfailed)
  have hfeed : Gap ['\n'] := by simp [Gap]
  have hspelled : r.SpelledBy text :=
    ⟨_, .refl _, [], _, ['\n'], by simp [text, String.toList_append], gap_nil, hfeed, hreport⟩
  have hsound : r.listings.Sound := ⟨by simp [r], by simp [r]⟩
  exact ⟨hsound, hspelled, ofText_spelling hsound hspelled⟩

end Sample

end AnalyzerBridge
