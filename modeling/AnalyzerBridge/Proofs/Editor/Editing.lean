import AnalyzerBridge.Proofs.Editor.Place

/-! Documents against the texts of an editor that makes the same edits. -/
namespace AnalyzerBridge

namespace Document

open Text

/-- How many characters of a text come before a place of the protocol, if the text has the place. -/
def placeOf? (text : List Char) (p : Position) : Option Nat :=
  place? text p.line.toNat p.character.toNat

/-- The order of places. -/
def Upto (p q : Position) : Prop :=
  p.line < q.line ∨ p.line = q.line ∧ p.character ≤ q.character

instance (p q : Position) : Decidable (Upto p q) :=
  inferInstanceAs (Decidable (_ ∨ _))

/-- The text that an editor has after an edit. There is none if the range ends before its start, or
is none of the text. -/
def typed? (text : List Char) (e : Edit) : Option (List Char) :=
  match e.range with
  | none => some e.text.toList
  | some r =>
    if Upto r.start r.stop then do
      let start ← placeOf? text r.start
      let stop ← placeOf? text r.stop
      return text.take start ++ e.text.toList ++ text.drop stop
    else none

/-- No foreign break comes before an end of an edit's range, but for the character right before. -/
def PlainEdit (text : List Char) (e : Edit) : Prop :=
  ∀ r ∈ e.range, (∀ n ∈ placeOf? text r.start, Plain text n) ∧
    ∀ n ∈ placeOf? text r.stop, Plain text n

/-- Every edit is plain in the text that it is made in. -/
def PlainEdits : List Char → List Edit → Prop
  | _, [] => True
  | text, e :: es => PlainEdit text e ∧ ∀ t ∈ typed? text e, PlainEdits t es

instance (text : List Char) (e : Edit) : Decidable (PlainEdit text e) :=
  inferInstanceAs (Decidable (∀ r ∈ e.range, _ ∧ _))

instance decidablePlainEdits : (text : List Char) → (es : List Edit) →
    Decidable (PlainEdits text es)
  | _, [] => inferInstanceAs (Decidable True)
  | text, e :: es =>
    have := fun t => decidablePlainEdits t es
    inferInstanceAs (Decidable (PlainEdit text e ∧ ∀ t ∈ typed? text e, PlainEdits t es))

variable {text t : List Char} {p q : Position} {e : Edit} {es : List Edit} {n n' : Nat}

theorem placeOf?_mono (h : placeOf? text p = some n) (h' : placeOf? text q = some n')
    (hle : Upto p q) : n ≤ n' := by
  refine place?_mono h h' ?_
  rcases hle with hline | ⟨hline, hcharacter⟩
  · exact .inl hline
  · exact .inr ⟨congrArg UInt32.toNat hline, hcharacter⟩

theorem indexIn_eq_iff (h : placeOf? text p = some n) : indexIn text p = n ↔ Plain text n := by
  rw [indexIn_eq]
  exact countIn_eq_iff h

/-- A document takes a plain edit as its editor does. -/
theorem editText_of_typed (h : typed? text e = some t) (hplain : PlainEdit text e) :
    editText text e = t := by
  rw [typed?] at h
  cases hr : e.range with
  | none =>
    rw [hr] at h
    rw [editText, hr]
    exact Option.some.inj h
  | some r =>
    rw [hr] at h
    obtain ⟨hle, h⟩ := Option.ite_none_right_eq_some.1 h
    obtain ⟨start, hstart, h⟩ := Option.bind_eq_some_iff.1 h
    obtain ⟨stop, hstop, h⟩ := Option.bind_eq_some_iff.1 h
    obtain ⟨hp, hq⟩ := hplain r hr
    have hsorted : start ≤ stop := placeOf?_mono hstart hstop hle
    have hi := (indexIn_eq_iff hstart).2 (hp start hstart)
    have hj := (indexIn_eq_iff hstop).2 (hq stop hstop)
    rw [editText, hr]
    simp only [hi, hj, Nat.max_eq_left hsorted]
    exact Option.some.inj h

theorem foldl_editText_of_typed (h : es.foldlM typed? text = some t) (hplain : PlainEdits text es) :
    es.foldl editText text = t := by
  induction es generalizing text with
  | nil => exact Option.some.inj h
  | cons e es ih =>
    rw [List.foldlM_cons] at h
    obtain ⟨u, hu, h⟩ := Option.bind_eq_some_iff.1 h
    rw [List.foldl_cons, editText_of_typed hu hplain.1]
    exact ih h (hplain.2 u hu)

/-- A document against its editor. It finds a place of the protocol exactly if no break that only
Unicode knows comes before it, but for the character right before it. So it holds the text of its
editor after edits that are all made at such places. -/
theorem text_as_typed (d : Document) :
    (∀ p n, placeOf? d.text.toList p = some n → (d.index p = n ↔ Plain d.text.toList n)) ∧
    ∀ version edits t, edits.foldlM typed? d.text.toList = some t →
      PlainEdits d.text.toList edits → d.edit version edits = ⟨version, String.ofList t⟩ := by
  constructor
  · intro p n h
    exact indexIn_eq_iff h
  · intro version edits t h hplain
    rw [edit, foldl_editText_of_typed h hplain]

/-- A document in which a line stands between a carriage return and a line feed. -/
def parted : Document := ⟨1, "a\r😀\nc"⟩

/-- Takes that line out, so that one break is left of two, and then writes over the line that has
moved up. -/
def joining : List Edit :=
  [⟨some ⟨⟨1, 0⟩, ⟨1, 2⟩⟩, ""⟩, ⟨some ⟨⟨1, 0⟩, ⟨1, 1⟩⟩, "d"⟩]

theorem text_as_typed_joining : parted.index ⟨1, 2⟩ = 3 ∧
    parted.edit 2 joining = ⟨2, String.ofList ['a', '\r', '\n', 'd']⟩ := by
  have htext : parted.text.toList = ['a', '\r', '😀', '\n', 'c'] := by decide
  obtain ⟨hplace, hedit⟩ := text_as_typed parted
  rw [htext] at hplace hedit
  exact ⟨(hplace _ 3 rfl).2 (by decide), hedit 2 joining _ (by decide) (by decide)⟩

/-- A document with a vertical tab in its first line. -/
def tabbed : Document := ⟨1, "a\x0Bb\nc"⟩

/-- Writes over the second line. -/
def overwrite : Edit :=
  ⟨some ⟨⟨1, 0⟩, ⟨1, 1⟩⟩, "X"⟩

/-- A vertical tab ends a line for the document alone: what is typed over the second line is found
in the first. -/
theorem tabbed_differs : typed? tabbed.text.toList overwrite = some "a\x0Bb\nX".toList ∧
    tabbed.edit 2 [overwrite] = ⟨2, "a\x0BX\nc"⟩ ∧
    ¬ ∀ (d : Document) (version : Int) (edits : List Edit) (t : List Char),
      edits.foldlM typed? d.text.toList = some t →
        d.edit version edits = ⟨version, String.ofList t⟩ := by
  have htyped : typed? tabbed.text.toList overwrite = some "a\x0Bb\nX".toList := by decide
  have hheld : tabbed.edit 2 [overwrite] = ⟨2, "a\x0BX\nc"⟩ := by decide
  refine ⟨htyped, hheld, ?_⟩
  intro hall
  have heq := hall tabbed 2 [overwrite] _ (by rw [List.foldlM_cons, htyped]; rfl)
  rw [hheld] at heq
  exact absurd heq (by decide)

end Document

end AnalyzerBridge
