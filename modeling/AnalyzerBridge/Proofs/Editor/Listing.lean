import AnalyzerBridge.Editor.Hover
import AnalyzerBridge.Proofs.Editor.Lines
import AnalyzerBridge.Proofs.Report.Instruction
import AnalyzerBridge.Proofs.Text.Rows
import AnalyzerBridge.Report.Format

/-! The lines of a listing. Names, mnemonics and tokens are written as they are, so a listing has a line
for each of its instructions only if none of these texts ends a line. -/
namespace AnalyzerBridge

open Text

/-- What a listing writes, a feed after each. -/
def Listing.pieces (l : Listing) : List (List Char) :=
  "```".toList :: ("; " ++ l.name).toList ::
    (l.instructions.map (·.row.toList) ++ ["```".toList])

/-- No text in a listing ends a line. The name has a feed right behind it, so it may have a carriage
return at its end. -/
structure Listing.Whole (stops : Char → Bool) (l : Listing) : Prop where
  name : OnOneLine stops l.name.toList
  mnemonic : ∀ i ∈ l.instructions, Free stops i.mnemonic.toList
  token : ∀ i ∈ l.instructions, Free stops i.token.toList

/-- Blanks if any, then three backticks. Not every such line ends a block of code, but no other does. -/
def IsFence (line : List Char) : Prop :=
  "```".toList <+: line.dropWhile (· = ' ')

instance (line : List Char) : Decidable (IsFence line) :=
  inferInstanceAs (Decidable (_ <+: _))

variable {stops : Char → Bool} {i : Instruction} {l : Listing} {s : List Char} {c : Char}
  {n width : Nat}

namespace Text

theorem not_isUnicodeBreak_of_isDigit (h : c.isDigit = true) : isUnicodeBreak c = false := by
  have hdigit : '0'.toNat ≤ c.toNat ∧ c.toNat ≤ '9'.toNat := by
    simpa [Char.isDigit, UInt32.le_iff_toNat_le] using h
  have hzero : '0'.toNat = 48 := rfl
  have hnine : '9'.toNat = 57 := rfl
  simp only [isUnicodeBreak, Bool.or_eq_false_iff, Bool.and_eq_false_iff, decide_eq_false_iff_not,
    beq_eq_false_iff_ne]
  omega

theorem unbroken_digits (h : ∀ c ∈ s, c.isDigit = true) : Unbroken s :=
  fun c hc => not_isUnicodeBreak_of_isDigit (h c hc)

theorem unbroken_toString (n : Nat) : Unbroken (toString n).toList := by
  rw [Nat.toString_eq_repr, Nat.toList_repr]
  exact unbroken_digits fun _ => isDigit_of_mem_toDigits

theorem unbroken_padded : Unbroken (padded width n).toList :=
  unbroken_digits fun _ => isDigit_of_mem_padded

/-- Breaks are at most those of Unicode. -/
theorem free_of_unbroken (hstops : ∀ c, stops c = true → isUnicodeBreak c = true)
    (h : Unbroken s) : Free stops s := by
  intro c hc
  rw [← Bool.not_eq_true]
  intro hstop
  exact absurd ((hstops c hstop).symm.trans (h c hc)) (by decide)

end Text

theorem Capture.unbroken_describe (c : Capture) : Unbroken c.describe.toList := by
  rw [toList_describe, unbroken_append]
  refine ⟨?_, unbroken_digits fun _ => isDigit_of_mem_toDigits⟩
  cases c.isLocal <;> decide

theorem Capture.unbroken_after (cs : List Capture) : Unbroken (after cs).toList := by
  induction cs with
  | nil => decide
  | cons c cs ih =>
    simp only [after, String.toList_append, unbroken_append]
    exact ⟨⟨by decide, c.unbroken_describe⟩, ih⟩

/-- Operands are told on one line. -/
theorem Told.unbroken_text (x : Told) : Unbroken x.text.toList := by
  cases x with
  | nothing => decide
  | jump direction distance target =>
    simp only [text, String.toList_append, unbroken_append]
    refine ⟨⟨⟨⟨by decide, ?_⟩, unbroken_toString distance⟩, by decide⟩, unbroken_padded⟩
    cases direction <;> decide
  | captures c cs =>
    simp only [text, String.toList_append, unbroken_append]
    exact ⟨by decide, c.unbroken_describe, Capture.unbroken_after cs⟩

theorem OperandSize.unbroken_ending (size : OperandSize) : Unbroken size.ending.toList := by
  cases size <;> decide

namespace Instruction

section
variable (hstops : ∀ c, stops c = true → isUnicodeBreak c = true)
include hstops

theorem free_sizedMnemonic : Free stops i.sizedMnemonic.toList ↔ Free stops i.mnemonic.toList := by
  by_cases h : i.size.ending.toList <:+ i.mnemonic.toList
  · rw [sizedMnemonic_of_suffix h]
  · rw [sizedMnemonic_of_not_suffix h, String.toList_append, free_append]
    exact and_iff_left (free_of_unbroken hstops i.size.unbroken_ending)

/-- Of the text of an instruction, only the mnemonic can end a line. -/
theorem free_describe : Free stops i.describe.toList ↔ Free stops i.mnemonic.toList := by
  rw [describe_eq, String.toList_append, free_append, free_sizedMnemonic hstops]
  exact and_iff_left (free_of_unbroken hstops (Told.unbroken_text _))

theorem free_padLeft {t : String} :
    Free stops (padLeft Listing.columnWidth ' ' t).toList ↔ Free stops t.toList := by
  have hblanks : ∀ k, Unbroken (List.replicate k ' ') := fun k c hc => by
    rw [List.eq_of_mem_replicate hc]
    rfl
  rw [padLeft, String.toList_append, String.toList_ofList, free_append]
  exact and_iff_right (free_of_unbroken hstops (hblanks _))

theorem free_row : Free stops i.row.toList ↔
    Free stops i.mnemonic.toList ∧ Free stops i.token.toList := by
  have hplain : ∀ {t}, Unbroken t → (Free stops t ↔ True) := fun h =>
    iff_true_intro (free_of_unbroken hstops h)
  simp only [row, String.toList_append, free_append, free_padLeft hstops, free_describe hstops,
    hplain unbroken_padded, hplain (unbroken_toString _), hplain (show Unbroken " ".toList by decide),
    hplain (show Unbroken " [".toList by decide), hplain (show Unbroken ":".toList by decide),
    hplain (show Unbroken " '".toList by decide), hplain (show Unbroken "']".toList by decide),
    true_and, and_true]

end

/-- A row ends with a bracket, so no break can come together with the feed behind it. -/
theorem onOneLine_row : OnOneLine stops i.row.toList ↔ Free stops i.row.toList := by
  obtain ⟨t, ht⟩ : ∃ t, i.row = t ++ "']" := ⟨_, rfl⟩
  have hend : i.row.toList = t.toList ++ ['\''] ++ [']'] := by
    rw [ht, String.toList_append, List.append_assoc]
    rfl
  rw [hend]
  exact OnOneLine.concat_iff (by decide)

theorem address_prefix_row (i : Instruction) :
    (padded 6 i.address.toNat ++ " ").toList <+: i.row.toList := by
  simp only [row, String.toList_append, List.append_assoc]
  exact (List.prefix_append_right_inj _).2 (List.prefix_append _ _)

end Instruction

/-- A line that begins with neither a blank nor a backtick is no fence. -/
theorem not_isFence_cons (hblank : c ≠ ' ') (hc : some c ≠ "```".toList.head?) :
    ¬ IsFence (c :: s) := by
  rw [IsFence, List.dropWhile_cons_of_neg (by simpa using hblank)]
  rintro h
  exact hc (congrArg some (List.cons_prefix_cons.1 h).1).symm

theorem not_isFence_padded : ¬ IsFence ((padded width n).toList ++ s) := by
  have hne : (padded width n).toList ≠ [] := by
    rw [toList_padded]
    exact List.append_ne_nil_of_right_ne_nil _ Nat.toDigits_ne_nil
  obtain ⟨d, ds, hds⟩ := List.exists_cons_of_ne_nil hne
  have hmem : d ∈ (padded width n).toList := by
    rw [hds]
    exact List.mem_cons_self
  have hdigit : d.isDigit = true := isDigit_of_mem_padded hmem
  rw [hds]
  refine not_isFence_cons ?_ ?_
  · rintro rfl
    cases hdigit
  · intro h
    cases Option.some.inj h
    cases hdigit

namespace Listing

theorem toList_describe (l : Listing) : l.describe.toList = l.pieces.flatMap (· ++ ['\n']) := by
  simp [describe, pieces, String.toList_append, String.toList_join, List.flatMap_map]

theorem length_pieces (l : Listing) : l.pieces.length = l.instructions.length + 3 := by
  simp [pieces]

theorem onOneLine_pieces (hstops : ∀ c, stops c = true → isUnicodeBreak c = true) :
    (∀ s ∈ l.pieces, OnOneLine stops s) ↔ l.Whole stops := by
  have hfence : OnOneLine stops "```".toList :=
    .of_free (free_of_unbroken hstops (by decide))
  have hheader : OnOneLine stops ("; " ++ l.name).toList ↔ OnOneLine stops l.name.toList := by
    rw [String.toList_append]
    exact OnOneLine.append_iff (free_of_unbroken hstops (by decide)) (by decide)
  have hrow : ∀ i : Instruction, OnOneLine stops i.row.toList ↔
      Free stops i.mnemonic.toList ∧ Free stops i.token.toList := fun i =>
    Instruction.onOneLine_row.trans (Instruction.free_row hstops)
  simp only [pieces, List.forall_mem_cons, List.forall_mem_append, List.forall_mem_map,
    List.not_mem_nil, false_implies, implies_true, hfence, hheader, hrow, true_and, and_true]
  constructor
  · rintro ⟨hname, hrows⟩
    exact ⟨hname, fun i hi => (hrows i hi).1, fun i hi => (hrows i hi).2⟩
  · rintro ⟨hname, hmnemonic, htoken⟩
    exact ⟨hname, fun i hi => ⟨hmnemonic i hi, htoken i hi⟩⟩

/-- A listing begins a line of what is shown of a symbol. -/
theorem lines_markdown (hfeed : stops '\n' = true) (s : Symbol) (l : Listing) :
    ∃ before, splitLines stops (s.markdown (some l)).toList =
      before ++ splitLines stops l.describe.toList := by
  have htext : (s.markdown (some l)).toList = s.summary.toList ++ '\n' :: l.describe.toList := by
    simp [Symbol.markdown, String.toList_append]
  exact ⟨closedLines stops s.summary.toList, by rw [htext, splitLines_append_feed hfeed]⟩

/-- The line of an instruction begins with its address. -/
theorem rows_forall₂ (instructions : List Instruction) : List.Forall₂
    (fun i row => (padded 6 i.address.toNat ++ " ").toList <+: row ∧
      row = (i.row ++ "\n").toList ∧ ¬ IsFence row)
    instructions (instructions.map fun i => (i.row ++ "\n").toList) := by
  rw [List.forall₂_map_right_iff, List.forall₂_same]
  intro i _
  obtain ⟨rest, hrest⟩ := i.address_prefix_row
  have hrow : (i.row ++ "\n").toList =
      (padded 6 i.address.toNat ++ " ").toList ++ (rest ++ "\n".toList) := by
    rw [String.toList_append, ← hrest, List.append_assoc]
  refine ⟨?_, rfl, ?_⟩
  · rw [hrow]
    exact List.prefix_append _ _
  · rw [hrow, String.toList_append, List.append_assoc]
    exact not_isFence_padded

/-- The lines of a listing, for any notion of a line whose breaks include the feed and are all breaks of
Unicode. There are at least three more than instructions, with nothing behind the last, and the listing
begins a line of what is shown of a symbol. There are no more than these exactly if no text in the
listing ends a line. Then they are the opening fence, the name, a line for each instruction in order,
which begins with its address, and the closing fence, and no line between is a fence. -/
theorem line_for_each_instruction (l : Listing) (hfeed : stops '\n' = true)
    (hstops : ∀ c, stops c = true → isUnicodeBreak c = true) :
    ∃ lines, splitLines stops l.describe.toList = lines ++ [⟨[], []⟩] ∧
      (∀ s : Symbol, ∃ before, splitLines stops (s.markdown (some l)).toList =
        before ++ (lines ++ [⟨[], []⟩])) ∧
      l.instructions.length + 3 ≤ lines.length ∧
      (lines.length = l.instructions.length + 3 ↔ l.Whole stops) ∧
      (l.Whole stops → ∃ header rows,
        lines.map Line.text = "```\n".toList :: header :: (rows ++ ["```\n".toList]) ∧
        header = ("; " ++ l.name ++ "\n").toList ∧ ¬ IsFence header ∧
        List.Forall₂ (fun i row => (padded 6 i.address.toNat ++ " ").toList <+: row ∧
          row = (i.row ++ "\n").toList ∧ ¬ IsFence row) l.instructions rows) := by
  have hlines := splitLines_pieces hfeed l.pieces
  rw [← toList_describe] at hlines
  refine ⟨l.pieces.flatMap (closedLines stops), hlines, ?_, ?_, ?_, ?_⟩
  · intro s
    rw [← hlines]
    exact lines_markdown hfeed s l
  · rw [← length_pieces]
    exact length_le_pieces hfeed l.pieces
  · rw [← length_pieces, length_pieces_iff hfeed, onOneLine_pieces hstops]
  · intro hwhole
    have htext := text_pieces hfeed ((onOneLine_pieces hstops).2 hwhole)
    refine ⟨_, _, ?_, rfl, ?_, rows_forall₂ l.instructions⟩
    · rw [htext]
      simp [pieces, String.toList_append]
    · rw [String.toList_append, String.toList_append]
      exact not_isFence_cons (by decide) (by decide)

/-- A loop that begins with a token that looks like a fence. -/
def fenceLoop : Listing :=
  ⟨4, "loop", [⟨0, "CONST", 1, 2, "```", .simple, none⟩,
    ⟨2, "LOOP", 1, 0, "while", .long, some (.jump 0 2 .backward)⟩]⟩

theorem line_for_each_instruction_fenceLoop :
    isFeed '\n' = true ∧ (∀ c, isFeed c = true → isUnicodeBreak c = true) ∧ fenceLoop.Whole isFeed ∧
    ∃ lines, splitLines isFeed fenceLoop.describe.toList = lines ++ [⟨[], []⟩] ∧ lines.length = 5 := by
  have hstops : ∀ c, isFeed c = true → isUnicodeBreak c = true := by
    intro c hc
    obtain rfl : c = '\n' := by simpa [isFeed] using hc
    rfl
  have hwhole : fenceLoop.Whole isFeed :=
    ⟨.of_free (by decide), by decide, by decide⟩
  obtain ⟨lines, hlines, -, -, hexact, -⟩ := line_for_each_instruction fenceLoop rfl hstops
  exact ⟨rfl, hstops, hwhole, lines, hlines, hexact.2 hwhole⟩

/-- A function that loads a text which goes on over three lines, the second of which is a fence. -/
def openText : Listing :=
  ⟨4, "f", [⟨0, "LOAD", 1, 2, "'a\n```\nb'", .simple, none⟩]⟩

def openTextReport : Report where
  verdict := .ok
  problems := []
  symbols := [⟨.global, 1, 0, "f", false, none, none, [], some 4⟩]
  listings := ⟨[(4, openText)]⟩

def openTextBuffer : String :=
  "[\"OK\",[],[[\"Global\",1,0,\"f\",false,null,null,[],4]]," ++
    "[[4,\"f\",[[0,\"LOAD\",1,2,\"'a\\n```\\nb'\"]]]]]"

/-- A text over several lines in the script breaks the line of its instruction and ends the block. -/
theorem openText_breaks :
    Format.structured.read openTextBuffer = .ok openTextReport ∧
    openTextReport.listings.find? 4 = some openText ∧ openText.instructions.length = 1 ∧
    (splitLines isFeed openText.describe.toList).map Line.text =
      ["```\n", "; f\n", "000000                     LOAD [1:2 ''a\n", "```\n", "b'']\n", "```\n",
        ""].map String.toList ∧
    (splitLines isFeed openText.describe.toList).dropLast.length ≠ openText.instructions.length + 3 ∧
    IsFence "```\n".toList := by
  decide +kernel

end Listing

end AnalyzerBridge
