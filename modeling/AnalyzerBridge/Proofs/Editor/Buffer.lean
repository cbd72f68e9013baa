import AnalyzerBridge.Editor.Buffer
import AnalyzerBridge.Proofs.Editor.Place

/-! Edits in a buffer. No request is ever refused, whatever the range; and the text that comes of an
edit is the old one with one part replaced. -/
namespace AnalyzerBridge

namespace Document

/-- The text that an edit makes of another. An edit with a range replaces the part between the
places of its ends in the old text; a part that would end before its start is empty. -/
inductive Spliced (text : List Char) (e : Edit) : List Char → Prop
  | whole (hr : e.range = none) : Spliced text e e.text.toList
  | part {r : Range} {before cut after : List Char} (hr : e.range = some r)
      (htext : text = before ++ cut ++ after)
      (hstart : before.length = indexIn text r.start)
      (hstop : (before ++ cut).length = max (indexIn text r.start) (indexIn text r.stop)) :
      Spliced text e (before ++ e.text.toList ++ after)

/-- The text that edits make of another, each of the text that the one before has left. -/
inductive SplicedAll : List Char → List Edit → List Char → Prop
  | nil {text : List Char} : SplicedAll text [] text
  | cons {text next last : List Char} {e : Edit} {es : List Edit} (he : Spliced text e next)
      (hes : SplicedAll next es last) : SplicedAll text (e :: es) last

variable {text t : List Char} {e : Edit} {es : List Edit} {r : Range}

theorem editText_whole (hr : e.range = none) : editText text e = e.text.toList := by
  rw [editText, hr]

theorem editText_part (hr : e.range = some r) : editText text e =
    splice text (indexIn text r.start) (max (indexIn text r.start) (indexIn text r.stop))
      e.text.toList := by
  rw [editText, hr, Nat.max_comm (indexIn text r.start)]

theorem stop_le_length (text : List Char) (r : Range) :
    max (indexIn text r.start) (indexIn text r.stop) ≤ text.length :=
  Nat.max_le.2 ⟨indexIn_le_length _ _, indexIn_le_length _ _⟩

theorem spliced_editText (text : List Char) (e : Edit) : Spliced text e (editText text e) := by
  cases hr : e.range with
  | none =>
    rw [editText_whole hr]
    exact .whole hr
  | some r =>
    rw [editText_part hr, splice]
    have hlength := stop_le_length text r
    generalize hstart : indexIn text r.start = start at hlength
    generalize hstop : max start (indexIn text r.stop) = stop at hlength
    have hle : start ≤ stop := hstop ▸ Nat.le_max_left _ _
    have htake : text.take start ++ (text.take stop).drop start = text.take stop := by
      have := List.take_append_drop start (text.take stop)
      rwa [List.take_take, Nat.min_eq_left hle] at this
    have htext : text = text.take start ++ (text.take stop).drop start ++ text.drop stop := by
      rw [htake, List.take_append_drop]
    refine .part hr htext ?_ ?_
    · rw [hstart, List.length_take, Nat.min_eq_left (Nat.le_trans hle hlength)]
    · rw [htake, List.length_take, Nat.min_eq_left hlength, hstart, hstop]

theorem spliced_iff : Spliced text e t ↔ t = editText text e := by
  constructor
  · intro h
    cases h with
    | whole hr => exact (editText_whole hr).symm
    | @part r before cut after hr htext hstart hstop =>
      have htake : text.take before.length = before := by
        rw [htext, List.append_assoc, List.take_left]
      have hdrop : text.drop (before ++ cut).length = after := by rw [htext, List.drop_left]
      rw [editText_part hr, splice, ← hstop, ← hstart, htake, hdrop]
  · rintro rfl
    exact spliced_editText text e

theorem splicedAll_iff : SplicedAll text es t ↔ t = es.foldl editText text := by
  induction es generalizing text with
  | nil =>
    constructor
    · intro h
      cases h
      rfl
    · rintro rfl
      exact .nil
  | cons e es ih =>
    rw [List.foldl_cons, ← ih]
    constructor
    · intro h
      cases h with
      | cons he hes => rwa [← spliced_iff.1 he]
    · exact .cons (spliced_editText text e)

end Document

namespace Buffer

open Document

variable {b : Buffer} {start stop : Nat}

theorem lineStart?_of_le {n : Nat} (h : n ≤ b.lineCount) :
    b.lineStart? n = some (((linesOf b.text).take n).flatMap Text.Line.text).length :=
  if_pos h

/-- The units asked for are those of the line. -/
theorem charOfUnit?_min (b : Buffer) (n : Nat) :
    b.charOfUnit? (min n b.unitCount) = some (Text.charsWithin n b.text) := by
  rw [charOfUnit?, if_pos (Nat.min_le_right _ _), unitCount, Text.charsWithin_min]

theorem remove?_of_le (h : start ≤ stop) (hstop : stop ≤ b.text.length) :
    b.remove? start stop = some ⟨b.text.take start ++ b.text.drop stop⟩ :=
  if_pos ⟨h, hstop⟩

theorem insert?_of_le (added : List Char) (h : start ≤ b.text.length) :
    b.insert? start added = some ⟨b.text.take start ++ added ++ b.text.drop start⟩ :=
  if_pos h

theorem index?_eq (b : Buffer) (p : Position) : b.index? p = some (indexIn b.text p) := by
  rw [index?, indexIn_eq]
  by_cases h : b.lineCount ≤ p.line.toNat
  · have hdrop : (linesOf b.text).drop p.line.toNat = [] := List.drop_eq_nil_of_le h
    rw [if_pos h, countIn_of_drop_nil hdrop, linesOf, Text.flatMap_text_splitLines]
  · have hlt : p.line.toNat < (linesOf b.text).length := Nat.lt_of_not_le h
    have hline : b.line? p.line.toNat = some ⟨(linesOf b.text)[p.line.toNat].text⟩ := by
      rw [line?, List.getElem?_eq_getElem hlt, Option.map_some]
    rw [if_neg h, hline, lineStart?_of_le (Nat.le_of_lt hlt),
      countIn_of_drop_cons (List.drop_eq_getElem_cons hlt)]
    simp only [Option.bind_eq_bind, Option.bind_some, charOfUnit?_min, Option.pure_def]

/-- All requests of an edit are answered. -/
theorem edit?_eq (b : Buffer) (e : Edit) : b.edit? e = some ⟨editText b.text e⟩ := by
  rw [edit?]
  cases hr : e.range with
  | none => rw [editText_whole hr]
  | some r =>
    rw [editText_part hr, splice]
    simp only [index?_eq, Option.bind_eq_bind, Option.bind_some]
    rw [Nat.max_comm]
    have hlength := stop_le_length b.text r
    generalize hstart : indexIn b.text r.start = start at hlength
    generalize hstop : max start (indexIn b.text r.stop) = stop at hlength
    have hle : start ≤ stop := hstop ▸ Nat.le_max_left _ _
    have hbefore : (b.text.take start).length = start := by
      rw [List.length_take, Nat.min_eq_left (Nat.le_trans hle hlength)]
    -- What is left begins with the characters before the part, so its place is there still.
    rw [remove?_of_le hle hlength, Option.bind_some, insert?_of_le]
    · rw [List.take_left' hbefore, List.drop_left' hbefore]
    · rw [List.length_append, hbefore]
      exact Nat.le_add_right _ _

theorem foldlM_edit?_eq (b : Buffer) (es : List Edit) :
    es.foldlM edit? b = some ⟨es.foldl editText b.text⟩ := by
  induction es generalizing b with
  | nil => rfl
  | cons e es ih =>
    rw [List.foldlM_cons, edit?_eq, List.foldl_cons]
    exact ih ⟨editText b.text e⟩

end Buffer

namespace Document

/-- Edits are safe splices. No place makes a request that its buffer refuses, and no edit does,
wherever its range lies; edits that are made together come to the text that is spliced by one after
the other, and to the new version. -/
theorem edits_spliced (d : Document) :
    (∀ p, d.buffer.index? p = some (d.index p) ∧ d.index p ≤ d.text.toList.length) ∧
    ∀ version edits, d.edit? version edits = some (d.edit version edits) ∧
      (d.edit version edits).version = version ∧
      ∀ t, SplicedAll d.text.toList edits t ↔ t = (d.edit version edits).text.toList := by
  constructor
  · intro p
    exact ⟨Buffer.index?_eq d.buffer p, indexIn_le_length d.text.toList p⟩
  · intro version edits
    have htext : (d.edit version edits).text.toList = edits.foldl editText d.text.toList :=
      String.toList_ofList
    refine ⟨?_, rfl, ?_⟩
    · rw [edit?, Buffer.foldlM_edit?_eq]
      rfl
    · intro t
      rw [htext]
      exact splicedAll_iff

/-- Three lines with two characters of two units. -/
def threeLines : Document :=
  ⟨7, "a😀b\nc𝄞d\r\nef"⟩

/-- Two lines lose what is between these characters; then a character comes between a carriage return
and its feed, from a range that ends on the line before. -/
def crossEdits : List Edit :=
  [⟨some ⟨⟨0, 1⟩, ⟨1, 3⟩⟩, "é\n"⟩, ⟨some ⟨⟨1, 2⟩, ⟨0, 2⟩⟩, "😀"⟩]

theorem edits_spliced_crossEdits :
    threeLines.buffer.index? ⟨0, 1⟩ = some 1 ∧ threeLines.buffer.index? ⟨0, 2⟩ = some 1 ∧
    threeLines.buffer.index? ⟨1, 3⟩ = some 6 ∧
    threeLines.edit? 8 crossEdits = some ⟨8, "aé\nd\r😀\nef"⟩ ∧
    SplicedAll threeLines.text.toList crossEdits "aé\nd\r😀\nef".toList := by
  have hindex : threeLines.index ⟨0, 1⟩ = 1 ∧ threeLines.index ⟨0, 2⟩ = 1 ∧
      threeLines.index ⟨1, 3⟩ = 6 := by decide +kernel
  have hedit : threeLines.edit 8 crossEdits = ⟨8, "aé\nd\r😀\nef"⟩ := by decide +kernel
  obtain ⟨hplaces, hedits⟩ := threeLines.edits_spliced
  obtain ⟨hmade, -, hspliced⟩ := hedits 8 crossEdits
  rw [hedit] at hmade hspliced
  obtain ⟨hstart, hinside, hstop⟩ := hindex
  refine ⟨?_, ?_, ?_, hmade, (hspliced _).2 rfl⟩
  · rw [(hplaces _).1, hstart]
  · rw [(hplaces _).1, hinside]
  · rw [(hplaces _).1, hstop]

end Document

end AnalyzerBridge
