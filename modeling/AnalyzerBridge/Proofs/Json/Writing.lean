import AnalyzerBridge.Json.Writer
import AnalyzerBridge.Proofs.Json.Values
import Mathlib.Data.List.Forall2

/-! Writing is as the grammar has it: what is written over several lines spells the value that is
written. -/
namespace AnalyzerBridge.Json

variable {α ν : Type}

/-- A name between its quotes, as it is written. -/
def writtenName (name : String) : List Char := name.toList.flatMap writeChar

theorem exists_controlDigits : ∀ n < 0x20, ∃ c ∈ hexDigits, ∃ d ∈ hexDigits,
    n = 16 * c.2 + d.2 ∧
      (if n < 0x10 then ['0'] else []) ++ Nat.toDigits 16 n = [c.1, d.1] := by
  decide

theorem spellsText_writeChar {c : Char} {t s : List Char} (h : SpellsText t s) :
    SpellsText (c :: t) (writeChar c ++ s) := by
  rw [writeChar]
  split_ifs with h1 h2 h3 h4 h5 h6 h7 hc
  -- each character with a short escape has an entry in the table
  iterate 7
    subst_vars
    exact .short (by decide) h
  · obtain ⟨a, ha, b, hb, hn, hd⟩ := exists_controlDigits c.toNat hc
    have hu : UnitText c.toNat ['\\', 'u', '0', '0', a.1, b.1] := by
      simpa [hn] using @UnitText.digits '0' '0' _ _ 0 0 _ _ (by decide) (by decide) ha hb
    rw [controlDigits, hd]
    exact .unit hu h
  · exact .literal ⟨h1, h2, Nat.le_of_not_lt hc⟩ h

theorem spellsText_written (t : List Char) : SpellsText t (t.flatMap writeChar) := by
  induction t with
  | nil => exact .nil
  | cons c t ih => exact spellsText_writeChar ih

theorem gap_newLine (d : Nat) : Gap (newLine d) := by
  intro c hc
  rcases List.mem_cons.1 hc with rfl | hc
  · decide
  · rw [List.eq_of_mem_replicate hc]
    decide

section
variable {N : ν → List Char → Prop} {P : α → List Char → Prop} {d : Nat}

theorem inside_prettyItems {as : List α} {items : List Json}
    (h : List.Forall₂ (fun a v => P a (writePretty (d + 1) v)) as items) (first : Bool) :
    Inside ']' P first as (prettyItems d first items) := by
  induction h generalizing first with
  | nil => exact .close (gap_newLine d)
  | cons ha _ ih =>
    cases first with
    | true => simpa [prettyItems] using Inside.first (gap_newLine (d + 1)) ha (ih false)
    | false => simpa [prettyItems] using Inside.next gap_nil (gap_newLine (d + 1)) ha (ih false)

/-- Items that are each written as they should be make a list that is. -/
theorem listText_pretty {as : List α} {items : List Json}
    (h : List.Forall₂ (fun a v => P a (writePretty (d + 1) v)) as items) :
    ListText P as (writePretty d (.list items)) := by
  cases h with
  | nil => exact .items (.close gap_nil)
  | cons ha has => exact .items (inside_prettyItems (.cons ha has) true)

theorem inside_prettyMembers {as : List (ν × α)} {members : List (String × Json)}
    (h : List.Forall₂ (fun a m => N a.1 (writtenName m.1) ∧ P a.2 (writePretty (d + 1) m.2)) as
      members) (first : Bool) :
    Inside '}' (MemberText N P) first as (prettyMembers d first members) := by
  induction h generalizing first with
  | nil => exact .close (gap_newLine d)
  | @cons a m _ _ ha _ ih =>
    have hspace : Gap [' '] := by simp [Gap]
    have hline := gap_newLine (d + 1)
    have hm := MemberText.pair ha.1 gap_nil hspace ha.2
    cases first with
    | true =>
      simpa [prettyMembers, writeText, writtenName] using Inside.first hline hm (ih false)
    | false =>
      simpa [prettyMembers, writeText, writtenName] using Inside.next gap_nil hline hm (ih false)

/-- Members that are each written as they should be make an object that is. -/
theorem objectText_pretty {as : List (ν × α)} {members : List (String × Json)}
    (h : List.Forall₂ (fun a m => N a.1 (writtenName m.1) ∧ P a.2 (writePretty (d + 1) m.2)) as
      members) : ObjectText N P as (writePretty d (.object members)) := by
  cases h with
  | nil => exact .members (.close gap_nil)
  | cons ha has => exact .members (inside_prettyMembers (.cons ha has) true)

end

/-- Values of which all numbers are integers of 64 bits, with at most so many brackets open. -/
inductive Integral : Nat → Json → Prop
  | null {n : Nat} : Integral n .null
  | bool {n : Nat} {b : Bool} : Integral n (.bool b)
  | int {n : Nat} {i : Int} : -(twoTo 63 : Int) ≤ i → i < twoTo 64 → Integral n (.int i)
  | text {n : Nat} {s : String} : Integral n (.text s)
  | list {n : Nat} {items : List Json} : (∀ v ∈ items, Integral n v) →
      Integral (n + 1) (.list items)
  | object {n : Nat} {members : List (String × Json)} : (∀ m ∈ members, Integral n m.2) →
      Integral (n + 1) (.object members)

/-- Such a value is written as a text that spells it. -/
theorem Integral.spells {n : Nat} {v : Json} (h : Integral n v) (d : Nat) :
    Spells n v (writePretty d v) := by
  induction h generalizing d with
  | null => exact spells_scalar .null
  | @bool _ b =>
    cases b with
    | false => exact spells_scalar .no
    | true => exact spells_scalar .yes
  | int hlow hhigh => exact spells_scalar (.int hlow hhigh)
  | text => exact spells_scalar (.text (spellsText_written _))
  | list _ ih =>
    refine .inr (.inl ⟨_, rfl, listText_pretty ?_⟩)
    exact List.forall₂_same.2 fun v hv => ih v hv (d + 1)
  | object _ ih =>
    refine .inr (.inr ⟨_, rfl, objectText_pretty ?_⟩)
    exact List.forall₂_same.2 fun m hm => ⟨spellsText_written _, ih m hm (d + 1)⟩

section
variable {β μ : Type} {P : α → List Char → Prop} {Q : β → List Char → Prop}
  {N : ν → List Char → Prop} {M : μ → List Char → Prop} {n : Nat} {v : Json} {s t : List Char}

theorem Inside.map {close : Char} {first : Bool} {as : List α} (f : α → β)
    (hf : ∀ a s, P a s → Q (f a) s) (h : Inside close P first as t) :
    Inside close Q first (as.map f) t := by
  induction h with
  | close hg => exact .close hg
  | first hg ha _ ih => exact .first hg (hf _ _ ha) ih
  | next hg hh ha _ ih => exact .next hg hh (hf _ _ ha) ih

theorem MemberText.map {m : ν × α} (f : ν → μ) (g : α → β) (hf : ∀ k b, N k b → M (f k) b)
    (hg : ∀ a s, P a s → Q (g a) s) (h : MemberText N P m s) :
    MemberText M Q (Prod.map f g m) s := by
  cases h with
  | pair hk hgap hgap' ha => exact .pair (hf _ _ hk) hgap hgap' (hg _ _ ha)

theorem SpellsText.wellFormed (h : SpellsText t s) : WellFormedText s := by
  induction h with
  | nil => exact .nil
  | literal hc _ ih => exact .literal hc ih
  | short he _ ih => exact .short he ih
  | unit hu _ ih => exact .unit hu ih
  | pair hu hw _ _ _ _ ih => exact .unit hu (.unit hw ih)

theorem SpellsScalar.wellFormed (h : SpellsScalar v s) : WellFormedScalar s := by
  cases h with
  | null => exact .word (by decide)
  | yes => exact .word (by decide)
  | no => exact .word (by decide)
  | int hlow hhigh =>
    obtain ⟨_, _, hs, _⟩ := integer_text hlow hhigh
    exact .number hs
  | real hs _ => exact .number hs
  | text ht => exact .text ht.wellFormed

/-- A text that spells a value is a text of JSON. -/
theorem Spells.wellFormed (h : Spells n v s) : WellFormed n s := by
  induction n generalizing v s with
  | zero => exact SpellsScalar.wellFormed h
  | succ n ih =>
    rcases h with h | ⟨items, _, ⟨h⟩⟩ | ⟨members, _, ⟨h⟩⟩
    · exact .inl h.wellFormed
    · exact .inr (.inl ⟨_, .items (h.map (fun _ => ()) fun _ _ => ih)⟩)
    · refine .inr (.inr ⟨_, .members (h.map (Prod.map (fun _ => ()) fun _ => ()) fun m s hm => ?_)⟩)
      exact hm.map _ _ (fun _ _ hk => SpellsText.wellFormed hk) fun _ _ => ih

end

end AnalyzerBridge.Json
