import AnalyzerBridge.Proofs.Editor.Buffer
import AnalyzerBridge.Proofs.Editor.Lines

/-! Edits on one line. A column past the end of a line counts into its break, and so an edit may take
the break away; the other lines stay as they are only if it does not. -/
namespace AnalyzerBridge

namespace Document

variable {t : List Char} {i j : Nat}

/-- A splice in the first of two texts. -/
theorem splice_append_left (hi : i ≤ t.length) (hj : j ≤ t.length) (u s : List Char) :
    splice (t ++ u) i j s = splice t i j s ++ u := by
  rw [splice, List.take_append_of_le_length hi, List.drop_append_of_le_length hj,
    ← List.append_assoc, splice]

/-- A splice in the second of two texts. -/
theorem splice_append_right (t u : List Char) (i j : Nat) (s : List Char) :
    splice (t ++ u) (t.length + i) (t.length + j) s = t ++ splice u i j s := by
  rw [splice, List.take_length_add_append, List.drop_length_add_append, splice,
    List.append_assoc, List.append_assoc, List.append_assoc]

end Document

namespace Text

def Line.Closed (l : Line) : Prop :=
  Unbroken l.content ∧ IsBreak l.ending

variable {c : Char} {s t : List Char} {l m : Line} {ls before after : List Line} {i j k n : Nat}

/-- Columns past the end of a line's content count the characters of its break. -/
theorem charsWithin_text (h : ∀ c ∈ l.ending, charUnits c = 1) (n : Nat) :
    charsWithin n l.text =
      charsWithin n l.content + min (n - units l.content) l.ending.length := by
  rcases Nat.lt_or_ge n (units l.content) with hlt | hge
  · rw [Line.text, charsWithin_append_of_lt _ hlt, Nat.sub_eq_zero_of_le (Nat.le_of_lt hlt),
      Nat.zero_min, Nat.add_zero]
  · rw [Line.text, charsWithin_append_of_le _ hge, charsWithin_of_single h, charsWithin_of_le hge]

namespace IsBreak

theorem units_eq {ending : List Char} (h : IsBreak ending) : ∀ c ∈ ending, charUnits c = 1 :=
  fun _ hc => charUnits_of_break (h.mem hc)

end IsBreak

namespace Lined

/-- A line with others behind it has a break; the last one has none. -/
theorem closed_or (h : Lined (l :: after)) :
    Unbroken l.text ∧ l.ending = [] ∧ after = [] ∨ l.Closed ∧ after ≠ [] := by
  cases after with
  | nil =>
    obtain ⟨hc, he⟩ := singleton_iff.1 h
    rw [Line.text, he, List.append_nil]
    exact .inl ⟨hc, rfl, rfl⟩
  | cons m after =>
    obtain ⟨hc, ⟨he, -⟩, -⟩ := cons_iff.1 h
    exact .inr ⟨⟨hc, he⟩, List.cons_ne_nil _ _⟩

theorem units_ending (h : Lined (l :: after)) : ∀ c ∈ l.ending, charUnits c = 1 := by
  rcases h.closed_or with ⟨-, he, -⟩ | ⟨⟨-, he⟩, -⟩
  · rw [he]
    exact List.forall_mem_nil _
  · exact he.units_eq

end Lined

namespace Line.Closed

theorem not_unbroken (h : l.Closed) : ¬ Unbroken l.text := by
  intro hall
  obtain ⟨c, hc⟩ := List.exists_mem_of_ne_nil _ h.2.ne_nil
  have hfalse := hall c (List.mem_append_right _ hc)
  rw [h.2.mem hc] at hfalse
  cases hfalse

/-- Behind the first break there is nothing but breaks. -/
theorem breaks_behind (h : l.Closed) (ht : l.text = s ++ c :: t) (hc : isUnicodeBreak c = true) :
    ∀ d ∈ t, isUnicodeBreak d = true := by
  intro d hd
  rw [Line.text] at ht
  rcases List.append_eq_append_iff.1 ht with ⟨u, -, hending⟩ | ⟨u, hcontent, hending⟩
  · apply h.2.mem
    rw [hending]
    exact List.mem_append_right _ (List.mem_cons_of_mem _ hd)
  · cases u with
    | nil =>
      apply h.2.mem
      rw [List.nil_append] at hending
      exact hending ▸ List.mem_cons_of_mem _ hd
    | cons c' u =>
      obtain ⟨rfl, -⟩ := List.cons.inj hending
      have hfalse := h.1 c (hcontent ▸ List.mem_append_right _ List.mem_cons_self)
      rw [hc] at hfalse
      cases hfalse

theorem length_pos (h : l.Closed) : 0 < l.ending.length :=
  List.length_pos_iff.2 h.2.ne_nil

theorem length_text (l : Line) : l.text.length = l.content.length + l.ending.length :=
  List.length_append

theorem units_text (h : l.Closed) : units l.text = units l.content + l.ending.length := by
  rw [Line.text, units_append, units_of_single h.2.units_eq]

/-- A place is in the content of a line, or at its end, if its column is. -/
theorem charsWithin_le_iff (h : l.Closed) :
    charsWithin n l.text ≤ l.content.length ↔ n ≤ units l.content := by
  have hpos := h.length_pos
  rw [charsWithin_text h.2.units_eq]
  rcases Nat.le_total n (units l.content) with hle | hge
  · have hcontent := charsWithin_le_length n l.content
    omega
  · rw [charsWithin_of_le hge]
    omega

/-- A place is ahead of the last character of a line if its column is. -/
theorem charsWithin_lt_iff (h : l.Closed) :
    charsWithin n l.text < l.text.length ↔ n < units l.text := by
  have hpos := h.length_pos
  have hcontent := charsWithin_le_length n l.content
  rw [charsWithin_text h.2.units_eq, length_text, h.units_text]
  rcases Nat.le_total n (units l.content) with hle | hge
  · omega
  · rw [charsWithin_of_le hge]
    omega

/-- A splice that begins in the content and ends ahead of the last character leaves a break. -/
theorem splice_ahead (h : l.Closed) (hs : Unbroken s) (hi : i ≤ l.content.length)
    (hj : j < l.text.length) : ∃ m : Line, m.Closed ∧ m.text = Document.splice l.text i j s := by
  obtain ⟨content, ending⟩ := l
  obtain ⟨hcontent, hbreak⟩ := h
  rw [Line.text]
  rcases Nat.lt_or_ge content.length j with hlong | hshort
  · -- Only the carriage return is taken out of a break of two characters.
    cases hbreak with
    | single hc =>
      simp only [Line.text, List.length_append, List.length_singleton] at hj
      omega
    | crlf =>
      obtain rfl : j = content.length + 1 := by
        simp only [Line.text, List.length_append, List.length_cons, List.length_nil] at hj
        omega
      refine ⟨⟨content.take i ++ s, ['\n']⟩, ⟨?_, .single rfl⟩, ?_⟩
      · exact unbroken_append.2 ⟨hcontent.take i, hs⟩
      · rw [Document.splice, List.take_append_of_le_length hi, List.drop_length_add_append]
        rfl
  · exact ⟨⟨Document.splice content i j s, ending⟩, ⟨hcontent.splice hs i j, hbreak⟩,
      (Document.splice_append_left hi hshort ending s).symm⟩

/-- A break from which characters are taken, but not its first, is a break still. -/
theorem splice_behind (h : l.Closed) (hi : l.content.length < i) (hij : i ≤ j)
    (hj : j ≤ l.text.length) : ∃ m : Line, m.Closed ∧ m.text = Document.splice l.text i j [] := by
  rcases Nat.eq_or_lt_of_le hij with rfl | hlt
  · exact ⟨l, h, by rw [Document.splice, List.append_nil, List.take_append_drop]⟩
  · -- Only the line feed is taken out of a break of two characters.
    obtain ⟨content, ending⟩ := l
    obtain ⟨hcontent, hbreak⟩ := h
    rw [length_text] at hj
    cases hbreak with
    | single hc => simp only [List.length_singleton] at hi hj; omega
    | crlf =>
      simp only [List.length_cons, List.length_nil] at hi hj
      obtain rfl : i = content.length + 1 := by omega
      obtain rfl : j = content.length + 2 := by omega
      exact ⟨⟨content, ['\r']⟩, ⟨hcontent, .single rfl⟩,
        (Document.splice_append_right content ['\r', '\n'] 1 2 []).symm⟩

/-- A text cannot be put behind the first character of a break. -/
theorem nil_of_splice_behind (hm : m.Closed) (h : l.Closed) (hs : Unbroken s)
    (hi : l.content.length < i) (htext : m.text = Document.splice l.text i j s) : s = [] := by
  cases s with
  | nil => rfl
  | cons d s =>
    obtain ⟨c, ending, hending⟩ := List.exists_cons_of_ne_nil h.2.ne_nil
    obtain ⟨k, rfl⟩ := Nat.exists_eq_add_of_lt hi
    have hsplit : m.text = l.content ++ c :: (ending.take k ++ d :: s ++ l.text.drop j) := by
      rw [htext, Document.splice, Line.text, hending, Nat.add_assoc, List.take_length_add_append,
        List.take_succ_cons]
      simp only [List.append_assoc, List.cons_append]
    have hd := hm.breaks_behind hsplit (h.2.mem (hending ▸ List.mem_cons_self)) d
      (List.mem_append_left _ (List.mem_append_right _ List.mem_cons_self))
    rw [hs d List.mem_cons_self] at hd
    cases hd

/-- A splice that takes the end of the content and the whole break leaves no break. -/
theorem lt_of_splice_ahead (hm : m.Closed) (h : l.Closed) (hs : Unbroken s)
    (hi : i ≤ l.content.length) (hj : j ≤ l.text.length)
    (htext : m.text = Document.splice l.text i j s) : j < l.text.length := by
  refine Nat.lt_of_le_of_ne hj ?_
  rintro rfl
  refine hm.not_unbroken ?_
  rw [htext, Document.splice, List.drop_length, List.append_nil, Line.text,
    List.take_append_of_le_length hi]
  exact unbroken_append.2 ⟨h.1.take i, hs⟩

/-- Of a line with a break, one is left after a splice without breaks exactly if the last character
of the break is not taken, or if nothing is put behind the first. -/
theorem splice_iff (h : l.Closed) (hs : Unbroken s) (hij : i ≤ j) (hj : j ≤ l.text.length) :
    (∃ m : Line, m.Closed ∧ m.text = Document.splice l.text i j s) ↔
      i ≤ l.content.length ∧ j < l.text.length ∨ l.content.length < i ∧ s = [] := by
  constructor
  · rintro ⟨m, hm, htext⟩
    rcases Nat.lt_or_ge l.content.length i with hi | hi
    · exact .inr ⟨hi, nil_of_splice_behind hm h hs hi htext⟩
    · exact .inl ⟨hi, lt_of_splice_ahead hm h hs hi hj htext⟩
  · rintro (⟨hi, hlt⟩ | ⟨hi, rfl⟩)
    · exact splice_ahead h hs hi hlt
    · exact splice_behind h hi hij hj

end Line.Closed

end Text

namespace Document

open Text

/-- The column where a range on one line ends. An end before the start is moved there. -/
def lastColumn (r : Range) : Nat :=
  max r.start.character.toNat r.stop.character.toNat

/-- The characters of a line and its break after an edit on the line. -/
def editedLine (l : Line) (r : Range) (added : List Char) : List Char :=
  splice l.text (charsWithin r.start.character.toNat l.text) (charsWithin (lastColumn r) l.text)
    added

/-- An edit leaves a break to the line that it is made on, and no second one: the line is the last,
or the range begins in its content and ends ahead of the last character of its break, or nothing is
put behind the content. -/
def SparesBreak (l : Line) (r : Range) (added : List Char) : Prop :=
  l.ending = [] ∨
    r.start.character.toNat ≤ units l.content ∧ lastColumn r < units l.text ∨
    units l.content < r.start.character.toNat ∧ added = []

/-- In the place of line `k`, a text would have a break in common with the line ahead or behind. -/
def MeetsNeighbor (ls : List Line) (k : Nat) (s : List Char) : Prop :=
  (∃ p ∈ (ls.take k).getLast?, Meets p.text s) ∨ ∃ n ∈ (ls.drop (k + 1)).head?, Meets s n.text

/-- All lines but line `k` are the same in both documents, and there are as many. -/
def KeepsOthers (d d' : Document) (k : Nat) : Prop :=
  d'.lineCount = d.lineCount ∧
    ∀ n, n ≠ k → (linesOf d'.text.toList)[n]? = (linesOf d.text.toList)[n]?

instance (l : Line) (r : Range) (added : List Char) : Decidable (SparesBreak l r added) :=
  inferInstanceAs (Decidable (_ ∨ _))

instance (ls : List Line) (k : Nat) (s : List Char) : Decidable (MeetsNeighbor ls k s) :=
  inferInstanceAs (Decidable ((∃ p ∈ (ls.take k).getLast?, _) ∨ ∃ n ∈ (ls.drop (k + 1)).head?, _))

variable {d d' : Document} {text s : List Char} {l : Line} {ls before after : List Line}
  {r : Range} {p : Position}

/-- A text takes the place of a line and leaves the others as they are exactly if it is a line of the
same kind, and its ends do not meet the others. -/
theorem linesOf_replaced_iff (h : Lined (before ++ l :: after)) :
    (∃ m, linesOf (before.flatMap Line.text ++ (s ++ after.flatMap Line.text)) =
      before ++ m :: after) ↔
    (l.ending = [] ∧ Unbroken s ∨ l.Closed ∧ ∃ m : Line, m.Closed ∧ m.text = s) ∧
      (∀ p ∈ before.getLast?, ¬ Meets p.text s) ∧ ∀ n ∈ after.head?, ¬ Meets s n.text := by
  have hlines : ∀ m, linesOf (before.flatMap Line.text ++ (s ++ after.flatMap Line.text)) =
      before ++ m :: after ↔ Lined (before ++ m :: after) ∧ m.text = s := by
    intro m
    rw [linesOf_eq_iff, List.flatMap_append, List.flatMap_cons, List.append_right_inj,
      List.append_left_inj]
  simp only [hlines, Lined.replace_iff h]
  obtain ⟨hl, -⟩ := (Lined.replace_iff h).1 h
  cases after with
  | nil =>
    obtain ⟨-, he⟩ := Lined.singleton_iff.1 hl
    constructor
    · rintro ⟨m, ⟨hm, hp⟩, rfl⟩
      obtain ⟨hc, hnil⟩ := Lined.singleton_iff.1 hm
      have htext : m.text = m.content := by rw [Line.text, hnil, List.append_nil]
      refine ⟨.inl ⟨he, htext ▸ hc⟩, hp, ?_⟩
      intro n hn
      exact absurd hn (Option.not_mem_none n)
    · rintro ⟨⟨-, hs⟩ | ⟨hclosed, -⟩, hp, -⟩
      · have htext : Line.text ⟨s, []⟩ = s := List.append_nil s
        exact ⟨⟨s, []⟩, ⟨Lined.singleton_iff.2 ⟨hs, rfl⟩, htext.symm ▸ hp⟩, htext⟩
      · exact absurd he hclosed.2.ne_nil
  | cons n after =>
    obtain ⟨hc, ⟨he, -⟩, hafter⟩ := Lined.cons_iff.1 hl
    constructor
    · rintro ⟨m, ⟨hm, hp⟩, rfl⟩
      obtain ⟨hmc, ⟨hme, hmeet⟩, -⟩ := Lined.cons_iff.1 hm
      refine ⟨.inr ⟨⟨hc, he⟩, m, ⟨hmc, hme⟩, rfl⟩, hp, ?_⟩
      rintro _ hn
      obtain rfl := Option.some.inj hn
      exact hmeet
    · rintro ⟨⟨hnil, -⟩ | ⟨-, m, hm, rfl⟩, hp, hmeet⟩
      · exact absurd hnil he.ne_nil
      · exact ⟨m, ⟨Lined.cons_iff.2 ⟨hm.1, ⟨hm.2, hmeet n rfl⟩, hafter⟩, hp⟩, rfl⟩

theorem indexIn_on_line (hl : linesOf text = before ++ l :: after)
    (hp : p.line.toNat = before.length) : indexIn text p =
      (before.flatMap Line.text).length + charsWithin p.character.toNat l.text := by
  have hdrop : (linesOf text).drop before.length = l :: after := by rw [hl, List.drop_left]
  rw [indexIn_eq, hp, countIn_of_drop_cons hdrop, hl, List.take_left]

/-- An edit on a line replaces the characters of this line alone. -/
theorem editText_on_line (hl : linesOf text = before ++ l :: after)
    (hstart : r.start.line.toNat = before.length) (hstop : r.stop.line = r.start.line)
    (added : String) : editText text ⟨some r, added⟩ =
      before.flatMap Line.text ++ (editedLine l r added.toList ++ after.flatMap Line.text) := by
  have htext : text = before.flatMap Line.text ++ (l.text ++ after.flatMap Line.text) := by
    have := (linesOf_eq_iff.1 hl).2
    rw [← this, List.flatMap_append, List.flatMap_cons]
  have hlast : max (indexIn text r.start) (indexIn text r.stop) =
      (before.flatMap Line.text).length + charsWithin (lastColumn r) l.text := by
    rw [indexIn_on_line hl hstart, indexIn_on_line hl (hstop ▸ hstart), Nat.add_max_add_left,
      max_charsWithin, lastColumn]
  rw [editText_part rfl, hlast, indexIn_on_line hl hstart, htext, splice_append_right,
    splice_append_left (charsWithin_le_length _ _) (charsWithin_le_length _ _), editedLine]

theorem sparesBreak_iff (hl : Lined (l :: after)) (hs : Unbroken s) :
    l.ending = [] ∧ Unbroken (editedLine l r s) ∨
      l.Closed ∧ (∃ m : Line, m.Closed ∧ m.text = editedLine l r s) ↔ SparesBreak l r s := by
  rcases hl.closed_or with ⟨hc, he, -⟩ | ⟨hclosed, -⟩
  · exact iff_of_true (.inl ⟨he, hc.splice hs _ _⟩) (.inl he)
  · have hle : charsWithin r.start.character.toNat l.text ≤ charsWithin (lastColumn r) l.text :=
      charsWithin_mono (Nat.le_max_left _ _) l.text
    have hlt : l.content.length < charsWithin r.start.character.toNat l.text ↔
        units l.content < r.start.character.toNat := by
      rw [← Nat.not_le, hclosed.charsWithin_le_iff, Nat.not_le]
    rw [editedLine, hclosed.splice_iff hs hle (charsWithin_le_length _ _), SparesBreak,
      hclosed.charsWithin_le_iff, hclosed.charsWithin_lt_iff, hlt,
      or_iff_right fun h => hclosed.2.ne_nil h.1, or_iff_right hclosed.2.ne_nil,
      and_iff_right hclosed]

theorem keepsOthers_iff (hl : linesOf d.text.toList = before ++ l :: after) :
    KeepsOthers d d' before.length ↔ ∃ m, linesOf d'.text.toList = before ++ m :: after := by
  have hset : ∀ m, (before ++ l :: after).set before.length m = before ++ m :: after := by
    intro m
    rw [List.set_append_right _ _ (Nat.le_refl _), Nat.sub_self, List.set_cons_zero]
  rw [KeepsOthers, lineCount, lineCount, hl]
  constructor
  · rintro ⟨hcount, hothers⟩
    have hk : before.length < (before ++ l :: after).length := by
      rw [List.length_append, List.length_cons]
      omega
    have hk' : before.length < (linesOf d'.text.toList).length := hcount ▸ hk
    refine ⟨(linesOf d'.text.toList)[before.length], ?_⟩
    rw [← hset]
    refine List.ext_getElem? fun n => ?_
    by_cases hn : n = before.length
    · rw [hn, List.getElem?_set_self hk, List.getElem?_eq_getElem hk']
    · rw [hothers n hn, List.getElem?_set_ne (Ne.symm hn)]
  · rintro ⟨m, hm⟩
    rw [hm, ← hset]
    refine ⟨List.length_set, ?_⟩
    intro n hn
    rw [List.getElem?_set_ne (Ne.symm hn)]

/-- An edit on one line, with a text that ends no line. A column counts the characters of the line's
content and, past their end, those of its break. So the other lines stay as they are exactly if the
edit leaves the line its break and joins it with neither neighbor. -/
theorem line_edit (d : Document) (version : Int) (r : Range) (s : String) (l : Line)
    (hl : (linesOf d.text.toList)[r.start.line.toNat]? = some l)
    (hline : r.stop.line = r.start.line) (hs : Unbroken s.toList) :
    (∀ column, d.index ⟨r.start.line, column⟩ = d.index ⟨r.start.line, 0⟩ +
      charsWithin column.toNat l.content +
      min (column.toNat - units l.content) l.ending.length) ∧
    (KeepsOthers d (d.edit version [⟨some r, s⟩]) r.start.line.toNat ↔
      SparesBreak l r s.toList ∧
        ¬ MeetsNeighbor (linesOf d.text.toList) r.start.line.toNat (editedLine l r s.toList)) := by
  obtain ⟨hk, hget⟩ := List.getElem?_eq_some_iff.1 hl
  have hsplit : linesOf d.text.toList = (linesOf d.text.toList).take r.start.line.toNat ++
      l :: (linesOf d.text.toList).drop (r.start.line.toNat + 1) := by
    rw [← hget, ← List.drop_eq_getElem_cons hk, List.take_append_drop]
  have hlength : r.start.line.toNat = ((linesOf d.text.toList).take r.start.line.toNat).length := by
    rw [List.length_take, Nat.min_eq_left (Nat.le_of_lt hk)]
  have hlined := hsplit ▸ lined_linesOf d.text.toList
  have hbehind := ((Lined.replace_iff hlined).1 hlined).1
  constructor
  · intro column
    have hzero : charsWithin (0 : UInt32).toNat l.text = 0 := charsWithin_zero l.text
    have hplace := fun c => indexIn_on_line (p := ⟨r.start.line, c⟩) hsplit hlength
    rw [index, index, hplace column, hplace 0, hzero, charsWithin_text hbehind.units_ending,
      Nat.add_zero, Nat.add_assoc]
  · have htext : (d.edit version [⟨some r, s⟩]).text.toList =
        ((linesOf d.text.toList).take r.start.line.toNat).flatMap Line.text ++
          (editedLine l r s.toList ++
            ((linesOf d.text.toList).drop (r.start.line.toNat + 1)).flatMap Line.text) := by
      rw [← editText_on_line hsplit hlength hline]
      exact String.toList_ofList
    have hkeeps : KeepsOthers d (d.edit version [⟨some r, s⟩]) _ ↔ _ := keepsOthers_iff hsplit
    rw [← hlength] at hkeeps
    rw [hkeeps, htext, linesOf_replaced_iff hlined, sparesBreak_iff hbehind hs, MeetsNeighbor,
      not_or]
    simp only [not_exists, not_and]

/-- A document whose first line ends with a break of two characters. -/
def twoLines : Document := ⟨1, "a😀\r\ncd"⟩

/-- The first line from the second column to the one given. -/
def restOfLine (column : UInt32) : Range :=
  ⟨⟨0, 1⟩, ⟨0, column⟩⟩

/-- The break may lose its first character, but not both. -/
theorem line_edit_twoLines :
    (linesOf twoLines.text.toList)[0]? = some ⟨['a', '😀'], ['\r', '\n']⟩ ∧
    KeepsOthers twoLines (twoLines.edit 2 [⟨some (restOfLine 4), "b"⟩]) 0 ∧
    ¬ KeepsOthers twoLines (twoLines.edit 2 [⟨some (restOfLine 5), "b"⟩]) 0 ∧
    twoLines.index ⟨0, 40⟩ = twoLines.index ⟨1, 0⟩ := by
  have hl : (linesOf twoLines.text.toList)[0]? = some ⟨['a', '😀'], ['\r', '\n']⟩ := by decide
  have hs : Unbroken "b".toList := by decide
  obtain ⟨hplace, hkeeps⟩ := line_edit twoLines 2 (restOfLine 4) "b" _ hl rfl hs
  have hloses := (line_edit twoLines 2 (restOfLine 5) "b" _ hl rfl hs).2
  refine ⟨hl, hkeeps.2 (by decide), fun h => absurd (hloses.1 h).1 (by decide), ?_⟩
  exact (hplace 40).trans (by decide)

/-- A line of two characters and another one. -/
def pair : Document := ⟨1, "ab\ncd"⟩

/-- Takes a line away from its second character on, with a column far past its end. -/
def pastEnd : Edit :=
  ⟨some (restOfLine 40), ""⟩

/-- The break is taken away with the rest of the line, and the next line comes to stand on it. -/
theorem pastEnd_joins : pair.index ⟨0, 40⟩ = 3 ∧ pair.edit 2 [pastEnd] = ⟨2, "acd"⟩ ∧
    ¬ ∀ (d : Document) (version : Int) (r : Range) (s : String),
      r.start.line.toNat < d.lineCount → r.stop.line = r.start.line → Unbroken s.toList →
        KeepsOthers d (d.edit version [⟨some r, s⟩]) r.start.line.toNat := by
  have hheld : pair.edit 2 [pastEnd] = ⟨2, "acd"⟩ := by decide
  refine ⟨by decide, hheld, ?_⟩
  intro hall
  have hcount := (hall pair 2 (restOfLine 40) "" (by decide) rfl unbroken_nil).1
  change (pair.edit 2 [pastEnd]).lineCount = pair.lineCount at hcount
  rw [hheld] at hcount
  exact absurd hcount (by decide)

end Document

end AnalyzerBridge
