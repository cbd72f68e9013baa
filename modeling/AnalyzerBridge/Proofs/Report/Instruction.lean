import AnalyzerBridge.Proofs.Text.Numeral
import AnalyzerBridge.Report.Listing

/-! Instructions against their text. The ending of the size stands in it once, and what the operand
adds is read back: of a jump its direction, how far it goes and where to, and of a closure all that
it captures. -/
namespace AnalyzerBridge

open Text

/-- What stands behind the first capture of a closure. -/
def Capture.after : List Capture → String
  | [] => "]"
  | c :: cs => ", " ++ c.describe ++ after cs

/-- What the text of an instruction tells of its operand. The sign of a jump's offset is not told. -/
inductive Told where
  | nothing
  | jump (direction : Direction) (distance : Nat) (target : UInt32)
  | captures (first : Capture) (others : List Capture)
deriving DecidableEq, Repr

/-- What is told of an operand. A closure that captures nothing is not told. -/
def Operand.told : Option Operand → Told
  | none | some (.closure []) => .nothing
  | some (.jump target offset direction) => .jump direction offset.toInt.natAbs target
  | some (.closure (c :: cs)) => .captures c cs

def Told.text : Told → String
  | nothing => ""
  | jump direction distance target =>
    " " ++ direction.sign ++ toString distance ++ " -> " ++ padded 4 target.toNat
  | captures c cs => " [" ++ (c.describe ++ Capture.after cs)

variable {c d : Capture} {cs ds : List Capture} {direction direction' : Direction}
  {target target' : UInt32} {distance distance' : Nat} {s t : List Char} {x y : Told}

namespace Capture

theorem toList_describe : c.describe.toList =
    (if c.isLocal then "local " else "upvalue ").toList ++ Nat.toDigits 10 c.index.toNat := by
  rw [describe, String.toList_append, Nat.toString_eq_repr, Nat.toList_repr]

/-- A capture is read back if no digit follows it. -/
theorem describe_append_inj (hs : Undigited s) (ht : Undigited t)
    (h : c.describe.toList ++ s = d.describe.toList ++ t) : c = d ∧ s = t := by
  obtain ⟨index, isLocal⟩ := c
  obtain ⟨index', isLocal'⟩ := d
  simp only [toList_describe, List.append_assoc] at h
  have hscope : isLocal = isLocal' := by
    cases isLocal <;> cases isLocal' <;> simp_all
  subst hscope
  obtain ⟨hdigits, hrest⟩ := digits_append_inj (fun _ => isDigit_of_mem_toDigits)
    (fun _ => isDigit_of_mem_toDigits) hs ht (List.append_cancel_left h)
  rw [UInt32.toNat_inj.1 (toDigits_inj.1 hdigits)]
  exact ⟨rfl, hrest⟩

theorem undigited_after : Undigited (after cs).toList := by
  cases cs with
  | nil => exact undigited_cons rfl
  | cons c cs =>
    rw [after, String.toList_append, String.toList_append]
    exact undigited_cons rfl

theorem after_inj_of_head (h : c.describe ++ after cs = d.describe ++ after ds) :
    c = d ∧ after cs = after ds := by
  have hlist := congrArg String.toList h
  rw [String.toList_append, String.toList_append] at hlist
  obtain ⟨hc, hrest⟩ := describe_append_inj undigited_after undigited_after hlist
  exact ⟨hc, String.toList_inj.1 hrest⟩

theorem after_nil_ne_cons : after [] ≠ after (c :: cs) := by
  intro h
  have hlist := congrArg String.toList h
  simp [after] at hlist

/-- Captures are read back in their order, up to the bracket. -/
theorem after_inj (h : c.describe ++ after cs = d.describe ++ after ds) : c = d ∧ cs = ds := by
  obtain ⟨hc, hrest⟩ := after_inj_of_head h
  refine ⟨hc, ?_⟩
  induction cs generalizing c d ds with
  | nil =>
    cases ds with
    | nil => rfl
    | cons d' ds => exact absurd hrest after_nil_ne_cons
  | cons c' cs ih =>
    cases ds with
    | nil => exact absurd hrest.symm after_nil_ne_cons
    | cons d' ds =>
      rw [after, after, String.append_assoc, String.append_assoc, String.append_right_inj] at hrest
      obtain ⟨rfl, hothers⟩ := after_inj_of_head hrest
      rw [ih hrest rfl hothers]

theorem intercalate_after (c : Capture) (cs : List Capture) :
    String.intercalate ", " ((c :: cs).map describe) ++ "]" = c.describe ++ after cs := by
  induction cs generalizing c with
  | nil => rfl
  | cons d cs ih =>
    rw [List.map_cons, List.map_cons, String.intercalate_cons_cons, ← List.map_cons,
      String.append_assoc, ih, after]
    simp only [String.append_assoc]

end Capture

namespace Told

theorem toList_text_jump : (jump direction distance target).text.toList =
    ' ' :: direction.sign.toList ++ (Nat.toDigits 10 distance ++
      (' ' :: '-' :: '>' :: ' ' :: (padded 4 target.toNat).toList)) := by
  rw [text]
  simp [String.toList_append]

/-- A jump is read back from its text, sign by sign and number by number. -/
theorem text_jump_inj
    (h : (jump direction distance target).text = (jump direction' distance' target').text) :
    jump direction distance target = jump direction' distance' target' := by
  have hlist := congrArg String.toList h
  rw [toList_text_jump, toList_text_jump] at hlist
  have hway : direction = direction' := by
    cases direction <;> cases direction' <;> simp_all [Direction.sign]
  subst hway
  have hrest := List.append_cancel_left hlist
  obtain ⟨hdistance, hrest⟩ := digits_append_inj (fun _ => isDigit_of_mem_toDigits)
    (fun _ => isDigit_of_mem_toDigits) (undigited_cons rfl) (undigited_cons rfl) hrest
  simp only [List.cons.injEq, true_and] at hrest
  rw [toDigits_inj.1 hdistance, UInt32.toNat_inj.1 (padded_inj.1 hrest)]

theorem text_captures_inj (h : (captures c cs).text = (captures d ds).text) :
    captures c cs = captures d ds := by
  rw [text, text, String.append_right_inj] at h
  obtain ⟨rfl, rfl⟩ := Capture.after_inj h
  rfl

/-- A jump has a sign where captures have a bracket. -/
theorem text_jump_ne_captures : (jump direction distance target).text ≠ (captures c cs).text := by
  intro h
  have hlist := congrArg String.toList h
  rw [toList_text_jump, text] at hlist
  cases direction <;> simp [Direction.sign] at hlist

theorem text_eq_empty : x.text = "" ↔ x = nothing := by
  cases x with
  | nothing => exact iff_of_true rfl rfl
  | jump direction distance target =>
    refine iff_of_false ?_ nofun
    rw [← String.toList_inj, toList_text_jump]
    nofun
  | captures c cs =>
    refine iff_of_false ?_ nofun
    rw [text, ← String.toList_inj, String.toList_append]
    nofun

theorem text_injective : Function.Injective text := by
  intro x y h
  cases x with
  | nothing => exact (text_eq_empty.1 h.symm).symm
  | jump direction distance target =>
    cases y with
    | nothing => exact text_eq_empty.1 h
    | jump direction' distance' target' => exact text_jump_inj h
    | captures d ds => exact absurd h text_jump_ne_captures
  | captures c cs =>
    cases y with
    | nothing => exact text_eq_empty.1 h
    | jump direction' distance' target' => exact absurd h.symm text_jump_ne_captures
    | captures d ds => exact text_captures_inj h

end Told

namespace Instruction

variable {i : Instruction} {a b : Option Operand}

/-- The text of an instruction is its mnemonic, with the ending of the size, and what is told of its
operand. -/
theorem describe_eq (i : Instruction) :
    i.describe = i.sizedMnemonic ++ (Operand.told i.operand).text := by
  rw [describe]
  cases i.operand with
  | none => rfl
  | some o =>
    match o with
    | .jump target offset direction => rfl
    | .closure [] => rfl
    | .closure (c :: cs) =>
      simp only [Operand.describe, Operand.told, Told.text]
      rw [String.append_assoc, Capture.intercalate_after]

theorem describe_eq_iff : { i with operand := a }.describe = { i with operand := b }.describe ↔
    Operand.told a = Operand.told b := by
  rw [describe_eq, describe_eq]
  exact (String.append_right_inj _).trans Told.text_injective.eq_iff

theorem sizedMnemonic_of_suffix (h : i.size.ending.toList <:+ i.mnemonic.toList) :
    i.sizedMnemonic = i.mnemonic := by
  rw [sizedMnemonic, if_pos (List.isSuffixOf_iff_suffix.2 h)]

theorem sizedMnemonic_of_not_suffix (h : ¬ i.size.ending.toList <:+ i.mnemonic.toList) :
    i.sizedMnemonic = i.mnemonic ++ i.size.ending := by
  rw [sizedMnemonic, if_neg fun hs => h (List.isSuffixOf_iff_suffix.1 hs)]

/-- The mnemonic with the ending is one and the same, whether it had it or not. -/
theorem exists_stem (i : Instruction) : ∃ stem, i.sizedMnemonic = stem ++ i.size.ending ∧
    (i.mnemonic = stem ++ i.size.ending ∨
      i.mnemonic = stem ∧ ¬ i.size.ending.toList <:+ stem.toList) := by
  by_cases h : i.size.ending.toList <:+ i.mnemonic.toList
  · obtain ⟨stem, hstem⟩ := h
    have hm : i.mnemonic = String.ofList stem ++ i.size.ending := by
      rw [← String.toList_inj, String.toList_append, String.toList_ofList, hstem]
    exact ⟨String.ofList stem, by rw [sizedMnemonic_of_suffix ⟨stem, hstem⟩, hm], .inl hm⟩
  · exact ⟨i.mnemonic, sizedMnemonic_of_not_suffix h, .inr ⟨rfl, h⟩⟩

/-- An ending that is missing may as well be written into the mnemonic. -/
theorem describe_of_not_suffix (h : ¬ i.size.ending.toList <:+ i.mnemonic.toList) :
    { i with mnemonic := i.mnemonic ++ i.size.ending }.describe = i.describe := by
  have hsuffix : i.size.ending.toList <:+ (i.mnemonic ++ i.size.ending).toList := by
    rw [String.toList_append]
    exact List.suffix_append _ _
  rw [describe_eq, describe_eq, sizedMnemonic_of_suffix hsuffix, sizedMnemonic_of_not_suffix h]

/-- The text of an instruction is faithful. It makes no difference whether the mnemonic has the ending
of the size, which is written just if it is missing. For a mnemonic and a size, two jumps read alike
exactly if they go the same way, equally far and to the same place; two closures with captures exactly
if they capture the same in the same order; a jump never reads like a closure; and no operand and a
closure without captures are all that adds nothing. -/
theorem describe_faithful (i : Instruction) :
    (¬ i.size.ending.toList <:+ i.mnemonic.toList →
      { i with mnemonic := i.mnemonic ++ i.size.ending }.describe = i.describe) ∧
    (∃ stem added, i.describe = stem ++ i.size.ending ++ added ∧
      (i.mnemonic = stem ++ i.size.ending ∨
        i.mnemonic = stem ∧ ¬ i.size.ending.toList <:+ stem.toList)) ∧
    (∀ target offset direction target' offset' direction',
      { i with operand := some (.jump target offset direction) }.describe =
        { i with operand := some (.jump target' offset' direction') }.describe ↔
      direction = direction' ∧ offset.toInt.natAbs = offset'.toInt.natAbs ∧ target = target') ∧
    (∀ c cs d ds, { i with operand := some (.closure (c :: cs)) }.describe =
        { i with operand := some (.closure (d :: ds)) }.describe ↔ c :: cs = d :: ds) ∧
    (∀ target offset direction captures,
      { i with operand := some (.jump target offset direction) }.describe ≠
        { i with operand := some (.closure captures) }.describe) ∧
    ∀ operand, { i with operand := operand }.describe = i.sizedMnemonic ↔
      operand = none ∨ operand = some (.closure []) := by
  refine ⟨describe_of_not_suffix, ?_, ?_, ?_, ?_, ?_⟩
  · obtain ⟨stem, hstem, hm⟩ := i.exists_stem
    exact ⟨stem, _, by rw [describe_eq, hstem], hm⟩
  · intro target offset direction target' offset' direction'
    rw [describe_eq_iff]
    simp only [Operand.told, Told.jump.injEq]
  · intro c cs d ds
    rw [describe_eq_iff]
    simp only [Operand.told, Told.captures.injEq, List.cons.injEq]
  · intro target offset direction captures h
    rw [describe_eq_iff] at h
    cases captures <;> cases h
  · intro operand
    have hnone : i.sizedMnemonic = { i with operand := none }.describe := by
      rw [describe_eq]
      exact (String.append_empty).symm
    rw [hnone, describe_eq_iff]
    match operand with
    | none => simp
    | some (.closure []) => simp [Operand.told]
    | some (.jump _ _ _) => simp [Operand.told]
    | some (.closure (c :: cs)) => simp [Operand.told]

/-- A jump back by as much as an offset can say. -/
def farJump : Instruction :=
  ⟨3, "JUMP", 1, 2, "while", .long, some (.jump 40 Int64.minValue .backward)⟩

theorem describe_faithful_farJump :
    ¬ farJump.size.ending.toList <:+ farJump.mnemonic.toList ∧
    farJump.describe = "JUMP_LONG -9223372036854775808 -> 0040" ∧
    { farJump with mnemonic := "JUMP_LONG" }.describe = farJump.describe ∧
    { farJump with operand := some (.jump 40 Int64.minValue .forward) }.describe ≠
      farJump.describe := by
  have hmissing : ¬ farJump.size.ending.toList <:+ farJump.mnemonic.toList := by decide
  obtain ⟨hending, -, hjumps, -⟩ := describe_faithful farJump
  refine ⟨hmissing, by decide +kernel, hending hmissing, ?_⟩
  intro h
  cases ((hjumps 40 Int64.minValue .forward 40 Int64.minValue .backward).1 h).1

end Instruction

end AnalyzerBridge
