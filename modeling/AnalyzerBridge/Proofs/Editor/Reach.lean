import AnalyzerBridge.Proofs.Editor.Editing

/-! The places of a document in their order. A later place never has fewer characters before it, and
every place between two characters, as well as both ends of the text, has a line and a column. -/
namespace AnalyzerBridge

namespace Text

/-- So many characters of some lines come before a column of a line: the lines before it, and on the
line itself `ahead`. Behind them the line goes on, unless it is the last. -/
def StandsIn (ls : List Line) (i line column : Nat) : Prop :=
  ∃ l ahead rest, ls[line]? = some l ∧ l.text = ahead ++ rest ∧
    (rest = [] → line + 1 = ls.length) ∧
    i = ((ls.take line).flatMap Line.text).length + ahead.length ∧ column = units ahead

/-- A column is inside the two units of a character, and another one is right before them. -/
def TornIn (ls : List Line) (line column torn : Nat) : Prop :=
  ∃ l ahead c rest, ls[line]? = some l ∧ l.text = ahead ++ c :: rest ∧ charUnits c = 2 ∧
    column = units ahead ∧ torn = units ahead + 1

variable {l : Line} {ls : List Line} {s : List Char} {i line line' column column' torn : Nat}

theorem length_le_units (s : List Char) : s.length ≤ units s := by
  induction s with
  | nil => exact Nat.le_refl _
  | cons c s ih =>
    have hc := charUnits_pos c
    rw [List.length_cons, units_cons]
    omega

theorem units_text_le (h : l ∈ ls) : units l.text ≤ units (ls.flatMap Line.text) := by
  obtain ⟨before, after, rfl⟩ := List.append_of_mem h
  rw [List.flatMap_append, List.flatMap_cons, units_append, units_append]
  omega

theorem charsWithin_ahead (ahead rest : List Char) :
    charsWithin (units ahead) (ahead ++ rest) = ahead.length := by
  rw [charsWithin_append_of_le rest (Nat.le_refl _), Nat.sub_self, charsWithin_zero, Nat.add_zero]

/-- A line behind another one begins where that one has ended, or later. -/
theorem length_take_lt (h : ls[line]? = some l) (hlt : line < line') :
    ((ls.take line).flatMap Line.text).length + l.text.length ≤
      ((ls.take line').flatMap Line.text).length := by
  obtain ⟨hline, rfl⟩ := List.getElem?_eq_some_iff.1 h
  have htake : ls.take (line + 1) <+: ls.take line' := List.take_prefix_take_left hlt
  obtain ⟨between, hbetween⟩ := htake
  rw [← hbetween, List.take_succ_eq_append_getElem hline, List.flatMap_append, List.flatMap_append,
    List.length_append, List.length_append, List.flatMap_singleton]
  exact Nat.le_add_right _ _

theorem exists_standsIn (hls : ls ≠ []) (hi : i ≤ (ls.flatMap Line.text).length) :
    ∃ line column, StandsIn ls i line column := by
  induction ls generalizing i with
  | nil => exact absurd rfl hls
  | cons l ls ih =>
    rw [List.flatMap_cons, List.length_append] at hi
    by_cases hl : i < l.text.length ∨ ls = []
    · have hle : i ≤ l.text.length := by
        rcases hl with hl | rfl
        · exact Nat.le_of_lt hl
        · simpa using hi
      refine ⟨0, units (l.text.take i), l, l.text.take i, l.text.drop i, rfl,
        (List.take_append_drop i l.text).symm, ?_, ?_, rfl⟩
      · intro hrest
        have hge := List.drop_eq_nil_iff.1 hrest
        rcases hl with hl | rfl
        · omega
        · rfl
      · rw [List.length_take, Nat.min_eq_left hle]
        exact (Nat.zero_add i).symm
    · rw [not_or, Nat.not_lt] at hl
      obtain ⟨line, column, l', ahead, rest, hget, htext, hlast, hcount, hcolumn⟩ :=
        ih hl.2 (i := i - l.text.length) (by omega)
      refine ⟨line + 1, column, l', ahead, rest, hget, htext, ?_, ?_, hcolumn⟩
      · intro hrest
        rw [hlast hrest, List.length_cons]
      · rw [List.take_succ_cons, List.flatMap_cons, List.length_append]
        omega

namespace StandsIn

theorem countIn_eq (h : StandsIn ls i line column) : countIn ls line column = i := by
  obtain ⟨l, ahead, rest, hget, htext, -, rfl, rfl⟩ := h
  obtain ⟨hline, rfl⟩ := List.getElem?_eq_some_iff.1 hget
  rw [Document.countIn_of_drop_cons (List.drop_eq_getElem_cons hline), htext, charsWithin_ahead]

/-- The line goes on, so the next one begins later. -/
theorem not_lt (h : StandsIn ls i line column) (h' : StandsIn ls i line' column') :
    ¬ line < line' := by
  intro hlt
  obtain ⟨l, ahead, rest, hget, htext, hlast, hi, -⟩ := h
  obtain ⟨l', ahead', rest', hget', -, -, hi', -⟩ := h'
  have hline' := (List.getElem?_eq_some_iff.1 hget').1
  have hrest : rest ≠ [] := fun hnil => by have := hlast hnil; omega
  have hpos := List.length_pos_iff.2 hrest
  have hle := length_take_lt hget hlt
  rw [htext, List.length_append] at hle
  omega

theorem unique (h : StandsIn ls i line column) (h' : StandsIn ls i line' column') :
    line = line' ∧ column = column' := by
  obtain rfl : line = line' := Nat.le_antisymm (Nat.not_lt.1 (h'.not_lt h)) (Nat.not_lt.1 (h.not_lt h'))
  obtain ⟨l, ahead, rest, hget, htext, -, hi, rfl⟩ := h
  obtain ⟨l', ahead', rest', hget', htext', -, hi', rfl⟩ := h'
  obtain rfl : l = l' := Option.some.inj (hget.symm.trans hget')
  have hlength : ahead.length = ahead'.length := by omega
  obtain ⟨rfl, -⟩ := List.append_inj (htext.symm.trans htext') hlength
  exact ⟨rfl, rfl⟩

theorem line_lt (h : StandsIn ls i line column) : line < ls.length := by
  obtain ⟨l, ahead, rest, hget, -⟩ := h
  exact (List.getElem?_eq_some_iff.1 hget).1

theorem column_le (h : StandsIn ls i line column) : column ≤ units (ls.flatMap Line.text) := by
  obtain ⟨l, ahead, rest, hget, htext, -, -, rfl⟩ := h
  have hle := units_text_le (List.mem_of_getElem? hget)
  rw [htext, units_append] at hle
  omega

end StandsIn

theorem TornIn.countIn_eq (h : TornIn ls line column torn) :
    countIn ls line torn = countIn ls line column := by
  obtain ⟨l, ahead, c, rest, hget, htext, hc, rfl, rfl⟩ := h
  obtain ⟨hline, rfl⟩ := List.getElem?_eq_some_iff.1 hget
  have hdrop := List.drop_eq_getElem_cons hline
  have htorn : charsWithin (units ahead + 1) (ahead ++ c :: rest) = ahead.length := by
    rw [charsWithin_append_of_le _ (Nat.le_add_right _ _), Nat.add_sub_cancel_left, charsWithin,
      if_pos (by omega), Nat.add_zero]
  rw [Document.countIn_of_drop_cons hdrop, Document.countIn_of_drop_cons hdrop, htext, charsWithin_ahead, htorn]

end Text

namespace Document

open Text

/-- So many characters of a text come before a place on the line that goes on there. -/
def StandsAt (text : List Char) (i : Nat) (p : Position) : Prop :=
  StandsIn (linesOf text) i p.line.toNat p.character.toNat

/-- A place is inside a character of two units, and another is right before the character. -/
def TornAt (text : List Char) (p torn : Position) : Prop :=
  torn.line = p.line ∧ TornIn (linesOf text) p.line.toNat p.character.toNat torn.character.toNat

variable {text : List Char} {p q : Position} {i : Nat}

/-- A line that is not the last has at least its break. -/
theorem length_linesOf_le (s : List Char) : (linesOf s).length ≤ s.length + 1 := by
  rw [linesOf]
  fun_induction splitLines isUnicodeBreak s with
  | case1 => exact Nat.le_refl _
  | case2 s ih => rw [List.length_cons, List.length_cons, List.length_cons]; omega
  | case3 c s _ _ ih => rw [List.length_cons, List.length_cons]; omega
  | case4 c s _ _ h => exact absurd h splitLines_ne_nil
  | case5 c s _ _ l ls h ih =>
    rw [h, List.length_cons] at ih
    rw [List.length_cons, List.length_cons]
    omega

theorem indexIn_mono (h : Upto p q) : indexIn text p ≤ indexIn text q := by
  rw [indexIn_eq, indexIn_eq]
  rcases h with hline | ⟨hline, hcharacter⟩
  · exact countIn_le_of_lt hline
  · rw [hline]
    exact countIn_mono hcharacter _ _

theorem StandsAt.indexIn_eq (h : StandsAt text i p) : indexIn text p = i := by
  rw [Document.indexIn_eq]
  exact h.countIn_eq

theorem StandsAt.unique (h : StandsAt text i p) (h' : StandsAt text i q) : p = q := by
  obtain ⟨hline, hcharacter⟩ := StandsIn.unique h h'
  cases p
  cases q
  rw [Position.mk.injEq]
  exact ⟨UInt32.toNat_inj.1 hline, UInt32.toNat_inj.1 hcharacter⟩

/-- In a text that is short enough, its lines and columns are numbers of 32 bits. -/
theorem exists_standsAt (h : units text < twoTo 32) (hi : i ≤ text.length) :
    ∃ p, StandsAt text i p := by
  have htext : (linesOf text).flatMap Line.text = text := flatMap_text_splitLines
  obtain ⟨line, column, hstands⟩ := exists_standsIn splitLines_ne_nil (htext.symm ▸ hi)
  have hline : line < twoTo 32 := by
    have hlt := hstands.line_lt
    have hlines := length_linesOf_le text
    have hunits := length_le_units text
    change line < (linesOf text).length at hlt
    omega
  have hcolumn : column < twoTo 32 := by
    have hle := hstands.column_le
    change column ≤ units ((linesOf text).flatMap Line.text) at hle
    rw [htext] at hle
    omega
  refine ⟨⟨UInt32.ofNat line, UInt32.ofNat column⟩, ?_⟩
  rw [StandsAt, UInt32.toNat_ofNat_of_lt' hline, UInt32.toNat_ofNat_of_lt' hcolumn]
  exact hstands

theorem TornAt.indexIn_eq (h : TornAt text p q) : indexIn text q = indexIn text p := by
  obtain ⟨hline, htorn⟩ := h
  rw [Document.indexIn_eq, Document.indexIn_eq, hline]
  exact htorn.countIn_eq

/-- The places of a document. A later place has no fewer characters before it, and none has more
than the text. Before the place that is made of a character's line and of the units ahead of it there
are just the characters ahead; so every number of characters is reached. A place inside a character
is taken for the one before. -/
theorem index_onto (d : Document) (h : units d.text.toList < twoTo 32) :
    (∀ p q, Upto p q → d.index p ≤ d.index q ∧ d.index q ≤ d.text.toList.length) ∧
    (∀ i ≤ d.text.toList.length, ∃ p, StandsAt d.text.toList i p ∧
      (∀ q, StandsAt d.text.toList i q → q = p) ∧ d.index p = i) ∧
    ∀ p torn, TornAt d.text.toList p torn → d.index torn = d.index p := by
  refine ⟨?_, ?_, ?_⟩
  · intro p q hle
    exact ⟨indexIn_mono hle, indexIn_le_length _ q⟩
  · intro i hi
    obtain ⟨p, hp⟩ := exists_standsAt h hi
    exact ⟨p, hp, fun q hq => hq.unique hp, hp.indexIn_eq⟩
  · intro p torn htorn
    exact htorn.indexIn_eq

/-- A document with a character of two units before a break of two. -/
def paired : Document := ⟨1, "a😀\r\nb"⟩

/-- Places around the character, inside the break and past the end of the line. -/
theorem index_onto_paired : units paired.text.toList < twoTo 32 ∧
    paired.index ⟨0, 2⟩ = paired.index ⟨0, 1⟩ ∧ paired.index ⟨0, 4⟩ = 3 ∧
    paired.index ⟨0, 9⟩ ≤ paired.index ⟨1, 0⟩ := by
  have htext : paired.text.toList = ['a', '😀', '\r', '\n', 'b'] := by decide
  have hunits : units paired.text.toList < twoTo 32 := by rw [htext]; decide
  obtain ⟨hmono, honto, htorn⟩ := index_onto paired hunits
  have htear : TornAt paired.text.toList ⟨0, 1⟩ ⟨0, 2⟩ := by
    rw [htext]
    exact ⟨rfl, _, ['a'], '😀', ['\r', '\n'], rfl, rfl, rfl, rfl, rfl⟩
  have hbreak : StandsAt paired.text.toList 3 ⟨0, 4⟩ := by
    rw [htext]
    exact ⟨_, ['a', '😀', '\r'], ['\n'], rfl, rfl, nofun, rfl, rfl⟩
  obtain ⟨p, -, hunique, hindex⟩ := honto 3 (by rw [htext]; decide)
  exact ⟨hunits, htorn _ _ htear, hunique _ hbreak ▸ hindex, (hmono ⟨0, 9⟩ ⟨1, 0⟩ (by decide)).1⟩

end Document

end AnalyzerBridge
