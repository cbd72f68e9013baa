import AnalyzerBridge.Editor.Hover
import AnalyzerBridge.Proofs.Lists

/-! Types in what is shown of a symbol. A type that is missing, empty or called unknown is shown in one
and the same way, wherever it stands; a declaration tells its type if it is another, and what it
returns if that is the type of functions. -/
namespace AnalyzerBridge

/-- The three spellings of a type that is not known. -/
def Untold (type : Option String) : Prop :=
  type = none ∨ type = some "" ∨ type = some unknownType

instance (type : Option String) : Decidable (Untold type) :=
  inferInstanceAs (Decidable (_ ∨ _ ∨ _))

/-- One type, or two spellings of one that is not known. -/
def SameType (a b : Option String) : Prop :=
  a = b ∨ Untold a ∧ Untold b

/-- Parameters that are alike but for the spelling of their types. -/
structure Param.Respelled (p q : Param) : Prop where
  name : p.name = q.name
  isVariadic : p.isVariadic = q.isVariadic
  type : SameType p.type q.type
  returnType : SameType p.returnType q.returnType

/-- Signatures that are alike but for the spelling of their types. -/
structure Signature.Respelled (f g : Signature) : Prop where
  name : f.name = g.name
  returnType : SameType f.returnType g.returnType
  params : List.Forall₂ Param.Respelled f.params g.params

/-- Symbols that are alike but for the spelling of their types. -/
structure Symbol.Respelled (s t : Symbol) : Prop where
  scope : s.scope = t.scope
  line : s.line = t.line
  column : s.column = t.column
  name : s.name = t.name
  isConst : s.isConst = t.isConst
  listingId : s.listingId = t.listingId
  type : SameType s.type t.type
  returnType : SameType s.returnType t.returnType
  functions : List.Forall₂ Signature.Respelled s.functions t.functions

variable {a b : Option String} {p q : Param} {f g : Signature} {s t : Symbol} {type : String}

theorem typeOrUnknown_eq_unknown : typeOrUnknown a = unknownType ↔ Untold a := by
  cases a with
  | none => exact iff_of_true rfl (.inl rfl)
  | some type =>
    rw [typeOrUnknown]
    split <;> simp_all [Untold]

/-- A type that is known is shown as it is. -/
theorem typeOrUnknown_of_told (h : ¬ Untold a) : a = some (typeOrUnknown a) := by
  cases a with
  | none => exact absurd (.inl rfl) h
  | some type =>
    rw [typeOrUnknown, if_neg]
    rintro rfl
    exact h (.inr (.inl rfl))

theorem sameType_iff : SameType a b ↔ typeOrUnknown a = typeOrUnknown b := by
  constructor
  · rintro (rfl | ⟨ha, hb⟩)
    · rfl
    · rw [typeOrUnknown_eq_unknown.2 ha, typeOrUnknown_eq_unknown.2 hb]
  · intro h
    by_cases ha : Untold a
    · exact .inr ⟨ha, typeOrUnknown_eq_unknown.1 (h ▸ typeOrUnknown_eq_unknown.2 ha)⟩
    · have hb : ¬ Untold b := fun hb =>
        ha (typeOrUnknown_eq_unknown.1 (h.trans (typeOrUnknown_eq_unknown.2 hb)))
      exact .inl ((typeOrUnknown_of_told ha).trans (h ▸ (typeOrUnknown_of_told hb).symm))

theorem typeOrUnknown_eq_function : typeOrUnknown a = functionType ↔ a = some functionType := by
  constructor
  · intro h
    have ha : ¬ Untold a := by
      rw [← typeOrUnknown_eq_unknown, h]
      decide
    rw [← h]
    exact typeOrUnknown_of_told ha
  · rintro rfl
    rfl

theorem Param.describe_of_respelled (h : p.Respelled q) : p.describe = q.describe := by
  simp only [describe, h.name, h.isVariadic, sameType_iff.1 h.type, sameType_iff.1 h.returnType]

theorem Signature.describe_of_respelled (h : f.Respelled g) : f.describe = g.describe := by
  simp only [describe, h.name, sameType_iff.1 h.returnType,
    map_eq_of_forall₂ h.params fun _ _ _ _ => Param.describe_of_respelled]

namespace Symbol

theorem typeName_of_respelled (h : s.Respelled t) : s.typeName = t.typeName :=
  sameType_iff.1 h.type

theorem declaration_of_respelled (h : s.Respelled t) : s.declaration = t.declaration := by
  rw [declaration, declaration, isCallable, isCallable, typeName_of_respelled h, h.name, h.isConst,
    h.scope, sameType_iff.1 h.returnType]

theorem moduleLines_of_respelled (h : s.Respelled t) : s.moduleLines = t.moduleLines := by
  have hlines := map_eq_of_forall₂ h.functions fun _ _ _ _ => Signature.describe_of_respelled
  have hempty : s.functions.isEmpty = t.functions.isEmpty := by
    rw [Bool.eq_iff_iff, List.isEmpty_iff_length_eq_zero, List.isEmpty_iff_length_eq_zero,
      h.functions.length_eq]
  rw [moduleLines, moduleLines, hempty, hlines, h.name]

theorem markdown_of_respelled (h : s.Respelled t) (l : Option Listing) :
    s.markdown l = t.markdown l := by
  have hsummary : s.summary = t.summary := by
    rw [summary, summary, h.scope, h.name, moduleLines_of_respelled h, declaration_of_respelled h]
  simp only [markdown, hsummary]

theorem isCallable_iff : s.isCallable = true ↔ s.type = some functionType := by
  rw [isCallable, beq_iff_eq, typeName, typeOrUnknown_eq_function]

def keyword (s : Symbol) : String :=
  if s.isConst then "const" else "var"

/-- What a declaration has between its keyword and the name. -/
def lead (s : Symbol) : String :=
  if s.typeName = unknownType then "" else " " ++ s.typeName

/-- What a declaration has behind the scope. -/
def note (s : Symbol) : String :=
  if s.isCallable then ", returns " ++ typeOrUnknown s.returnType else ""

theorem declaration_eq (s : Symbol) : s.declaration = s.keyword ++ s.lead ++ " " ++ s.name ++
    "; // " ++ s.typeName ++ ", " ++ s.scope.name ++ s.note := rfl

theorem lead_of_untold (h : Untold s.type) : s.lead = "" :=
  if_pos (typeOrUnknown_eq_unknown.2 h)

theorem lead_of_told (h : ¬ Untold s.type) : s.lead = " " ++ s.typeName :=
  if_neg fun hu => h (typeOrUnknown_eq_unknown.1 hu)

theorem note_of_function (h : s.type = some functionType) :
    s.note = ", returns " ++ typeOrUnknown s.returnType :=
  if_pos (isCallable_iff.2 h)

theorem note_of_not_function (h : s.type ≠ some functionType) : s.note = "" :=
  if_neg fun hc => h (isCallable_iff.1 hc)

theorem untold_ne_function (h : Untold s.type) : s.type ≠ some functionType := by
  intro hc
  rw [hc] at h
  exact absurd h (by decide)

/-- A known type is not said by a declaration that has none. The two would end in `nown` and in a blank
with a type of three characters. -/
theorem told_ne_untold (name type : String) :
    name ++ "; // " ++ unknownType ≠ type ++ " " ++ name ++ "; // " ++ type := by
  intro h
  have hlength := congrArg String.length h
  simp only [String.length_append] at hlength
  have hthree : type.toList.length = 3 := by
    have hunknown : unknownType.length = 7 := rfl
    have hmark : "; // ".length = 5 := rfl
    have hblank : " ".length = 1 := rfl
    rw [String.length_toList]
    omega
  have hlist : (name ++ "; // unk").toList ++ "nown".toList =
      (type ++ " " ++ name ++ "; //").toList ++ (" " ++ type).toList := by
    have hlist := congrArg String.toList h
    simp only [String.toList_append] at hlist ⊢
    simpa [unknownType] using hlist
  have hend := List.append_inj_right' hlist (by simp [hthree])
  rw [String.toList_append] at hend
  exact absurd (List.cons.inj hend).1 (by decide)

theorem declaration_of_untold (h : Untold s.type) : s.declaration =
    s.keyword ++ (" " ++ (s.name ++ "; // " ++ unknownType) ++ (", " ++ s.scope.name)) := by
  rw [declaration_eq, lead_of_untold h, note_of_not_function (untold_ne_function h), typeName,
    typeOrUnknown_eq_unknown.2 h]
  simp only [String.append_empty, String.append_assoc]

theorem declaration_of_told (h : ¬ Untold s.type) : s.declaration = s.keyword ++ (" " ++
    (s.typeName ++ " " ++ s.name ++ "; // " ++ s.typeName) ++ (", " ++ s.scope.name) ++ s.note) := by
  rw [declaration_eq, lead_of_told h]
  simp only [String.append_assoc]

/-- Without its type, a declaration is another, unless the type is not known. -/
theorem declaration_untyped : { s with type := none }.declaration = s.declaration ↔
    Untold s.type := by
  have hnone : { s with type := none }.declaration = s.keyword ++
      (" " ++ (s.name ++ "; // " ++ unknownType) ++ (", " ++ s.scope.name)) :=
    declaration_of_untold (.inl rfl)
  constructor
  · intro heq
    by_contra h
    rw [hnone, declaration_of_told h, String.append_right_inj] at heq
    by_cases hc : s.type = some functionType
    · -- what a function returns makes its declaration too long
      have htype : s.typeName = functionType := typeOrUnknown_eq_function.2 hc
      have hlength := congrArg String.length heq
      have hfunction : functionType.length = 8 := rfl
      have hunknown : unknownType.length = 7 := rfl
      simp only [htype, String.length_append] at hlength
      omega
    · rw [note_of_not_function hc, String.append_empty, String.append_left_inj,
        String.append_right_inj] at heq
      exact told_ne_untold _ _ heq
  · intro h
    rw [hnone, declaration_of_untold h]

/-- Of a function, the declaration tells what it returns. -/
theorem declaration_returns_of_function {r : Option String} (hc : s.type = some functionType) :
    { s with returnType := r }.declaration = s.declaration ↔ SameType r s.returnType := by
  have hnote : { s with returnType := r }.note = ", returns " ++ typeOrUnknown r :=
    note_of_function hc
  rw [declaration_eq s, declaration_eq, hnote, note_of_function hc, sameType_iff]
  exact (String.append_right_inj _).trans (String.append_right_inj _)

/-- A declaration says what its symbol returns exactly if that is a function. -/
theorem declaration_returns : (∀ r, { s with returnType := r }.declaration = s.declaration) ↔
    s.type ≠ some functionType := by
  constructor
  · intro h hc
    have hsame := fun r => sameType_iff.1 ((declaration_returns_of_function hc).1 (h r))
    have hboth : typeOrUnknown none = typeOrUnknown (some functionType) :=
      (hsame none).trans (hsame (some functionType)).symm
    exact absurd hboth (by decide)
  · intro hc r
    have hnote : { s with returnType := r }.note = "" := note_of_not_function hc
    rw [declaration_eq s, declaration_eq, hnote, note_of_not_function hc]
    rfl

/-- A type that is missing, empty or called unknown is shown in one and the same way. What is shown of
symbols that differ in that alone, at whatever depth, is the same, with or without a listing. A
declaration has the type before the name exactly if it is none of these, so that it reads otherwise
without its type; and it tells what its symbol returns exactly if its type is that of functions. -/
theorem unknown_types_alike (s : Symbol) :
    (∀ t : Symbol, s.Respelled t → ∀ l, s.markdown l = t.markdown l) ∧
    (∃ lead shown note, s.declaration = s.keyword ++ lead ++ " " ++ s.name ++ "; // " ++ shown ++
        ", " ++ s.scope.name ++ note ∧
      (Untold s.type ∧ lead = "" ∧ shown = unknownType ∨
        ∃ type, s.type = some type ∧ ¬ Untold s.type ∧ lead = " " ++ type ∧ shown = type) ∧
      (s.type ≠ some functionType ∧ note = "" ∨
        s.type = some functionType ∧ note = ", returns " ++ typeOrUnknown s.returnType)) ∧
    ({ s with type := none }.declaration = s.declaration ↔ Untold s.type) ∧
    ((∀ r, { s with returnType := r }.declaration = s.declaration) ↔
      s.type ≠ some functionType) := by
  refine ⟨fun t ht => markdown_of_respelled ht, ⟨_, _, _, s.declaration_eq, ?_, ?_⟩,
    declaration_untyped, declaration_returns⟩
  · by_cases h : Untold s.type
    · exact .inl ⟨h, lead_of_untold h, typeOrUnknown_eq_unknown.2 h⟩
    · exact .inr ⟨s.typeName, typeOrUnknown_of_told h, h, lead_of_told h, rfl⟩
  · by_cases hc : s.type = some functionType
    · exact .inr ⟨hc, note_of_function hc⟩
    · exact .inl ⟨hc, note_of_not_function hc⟩

/-- A module whose function takes a function; nothing else is said of its types. -/
def untypedModule : Symbol where
  scope := .imported
  line := 1
  column := 7
  name := "System"
  isConst := true
  type := none
  returnType := some ""
  functions := [⟨"each", none, [⟨"callback", some "function", false, some "unknown"⟩]⟩]
  listingId := none

/-- The same module in other spellings. -/
def unknownModule : Symbol :=
  { untypedModule with
    type := some "unknown"
    returnType := none
    functions := [⟨"each", some "", [⟨"callback", some "function", false, none⟩]⟩] }

theorem unknown_types_alike_module : untypedModule.Respelled unknownModule ∧
    untypedModule.markdown none = "### module System\n```qscript\nunknown each(function callback " ++
      "/* -> unknown */) \x7b [native code] \x7d\n```\n" ∧
    untypedModule.markdown none = unknownModule.markdown none := by
  have hrespelled : untypedModule.Respelled unknownModule := by
    refine ⟨rfl, rfl, rfl, rfl, rfl, rfl, .inr ?_, .inr ?_, .cons ⟨rfl, .inr ?_, .cons ?_ .nil⟩ .nil⟩
    · decide
    · decide
    · decide
    · exact ⟨rfl, rfl, .inl rfl, .inr (by decide)⟩
  exact ⟨hrespelled, by decide +kernel, (unknown_types_alike untypedModule).1 _ hrespelled none⟩

end Symbol

end AnalyzerBridge
