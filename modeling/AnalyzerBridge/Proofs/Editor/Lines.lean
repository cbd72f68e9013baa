import AnalyzerBridge.Proofs.Editor.Place
import Mathlib.Data.List.Chain

/-! The lines of a document as a list that is put together, not read: each line but the last has a
break, and the breaks of no two lines that follow each other would become one. A text has just one
such list, so what becomes of a text can be told by what becomes of its lines. -/
namespace AnalyzerBridge

namespace Text

/-- No character ends a line. -/
def Unbroken (s : List Char) : Prop :=
  ∀ c ∈ s, isUnicodeBreak c = false

instance (s : List Char) : Decidable (Unbroken s) :=
  List.decidableBAll (fun c => isUnicodeBreak c = false) s

/-- What ends a line. -/
inductive IsBreak : List Char → Prop
  | single {c : Char} (hc : isUnicodeBreak c = true) : IsBreak [c]
  | crlf : IsBreak ['\r', '\n']

/-- A carriage return at the end of one text and a line feed at the beginning of the next: put
together, they are one break. -/
def Meets (s t : List Char) : Prop :=
  s.getLast? = some '\r' ∧ t.head? = some '\n'

instance (s t : List Char) : Decidable (Meets s t) :=
  inferInstanceAs (Decidable (_ ∧ _))

/-- A line may have another right behind it. -/
def Line.Before (l m : Line) : Prop :=
  IsBreak l.ending ∧ ¬ Meets l.text m.text

/-- Lines that a text can have. -/
structure Lined (ls : List Line) : Prop where
  unbroken : ∀ l ∈ ls, Unbroken l.content
  chain : ls.IsChain Line.Before
  last : ls.getLast?.map Line.ending = some []

variable {c : Char} {s t content ending : List Char} {l l' m : Line} {ls before after : List Line}

theorem unbroken_nil : Unbroken [] :=
  List.forall_mem_nil _

theorem unbroken_cons : Unbroken (c :: s) ↔ isUnicodeBreak c = false ∧ Unbroken s :=
  List.forall_mem_cons

theorem unbroken_append : Unbroken (s ++ t) ↔ Unbroken s ∧ Unbroken t :=
  List.forall_mem_append

namespace Unbroken

theorem take (h : Unbroken s) (n : Nat) : Unbroken (s.take n) :=
  fun c hc => h c (List.mem_of_mem_take hc)

theorem drop (h : Unbroken s) (n : Nat) : Unbroken (s.drop n) :=
  fun c hc => h c (List.mem_of_mem_drop hc)

theorem splice (h : Unbroken s) (ht : Unbroken t) (i j : Nat) :
    Unbroken (Document.splice s i j t) :=
  unbroken_append.2 ⟨unbroken_append.2 ⟨h.take i, ht⟩, h.drop j⟩

end Unbroken

namespace IsBreak

theorem ne_nil (h : IsBreak ending) : ending ≠ [] := by
  cases h <;> exact List.cons_ne_nil _ _

theorem mem (h : IsBreak ending) (hc : c ∈ ending) : isUnicodeBreak c = true := by
  cases h with
  | single hd => rwa [List.mem_singleton.1 hc]
  | crlf =>
    rcases List.mem_pair.1 hc with rfl | rfl <;> rfl

end IsBreak

/-- Of a line with a break only the break can meet what comes next. -/
theorem meets_text (h : IsBreak l.ending) : Meets l.text s ↔ Meets l.ending s := by
  rw [Meets, Meets, Line.text, List.getLast?_append_of_ne_nil _ h.ne_nil]

namespace Lined

theorem ne_nil (h : Lined ls) : ls ≠ [] := by
  rintro rfl
  cases h.last

theorem singleton_iff : Lined [l] ↔ Unbroken l.content ∧ l.ending = [] := by
  constructor
  · intro h
    exact ⟨h.unbroken l List.mem_cons_self, Option.some.inj h.last⟩
  · rintro ⟨hc, he⟩
    exact ⟨List.forall_mem_singleton.2 hc, List.isChain_singleton l, congrArg some he⟩

theorem cons_iff :
    Lined (l :: m :: ls) ↔ Unbroken l.content ∧ l.Before m ∧ Lined (m :: ls) := by
  constructor
  · rintro ⟨hunbroken, hchain, hlast⟩
    obtain ⟨hbefore, hchain⟩ := List.isChain_cons_cons.1 hchain
    obtain ⟨hl, hls⟩ := List.forall_mem_cons.1 hunbroken
    exact ⟨hl, hbefore, hls, hchain, hlast⟩
  · rintro ⟨hl, hbefore, hls, hchain, hlast⟩
    exact ⟨List.forall_mem_cons.2 ⟨hl, hls⟩, List.isChain_cons_cons.2 ⟨hbefore, hchain⟩, hlast⟩

/-- The first line of a text is empty only if the text is. -/
theorem head?_flatMap (h : Lined (l :: ls)) : ((l :: ls).flatMap Line.text).head? = l.text.head? := by
  cases ls with
  | nil => rw [List.flatMap_singleton]
  | cons m ls =>
    have hne := (cons_iff.1 h).2.1.1.ne_nil
    obtain ⟨c, t, htext⟩ := List.exists_cons_of_ne_nil (List.append_ne_nil_of_right_ne_nil l.content hne)
    rw [List.flatMap_cons, Line.text, htext]
    rfl

/-- A line among others may be put in place of another if it may stand ahead of those behind it and
behind those ahead. -/
theorem replace_iff (h : Lined (before ++ l :: after)) : Lined (before ++ l' :: after) ↔
    Lined (l' :: after) ∧ ∀ p ∈ before.getLast?, ¬ Meets p.text l'.text := by
  obtain ⟨hunbroken, hchain, -⟩ := h
  have hbefore := (List.forall_mem_append.1 hunbroken).1
  obtain ⟨hchain, -, hjoint⟩ := List.isChain_append.1 hchain
  constructor
  · rintro ⟨hunbroken', hchain', hlast'⟩
    rw [List.getLast?_append_cons] at hlast'
    obtain ⟨-, hchain', hjoint'⟩ := List.isChain_append.1 hchain'
    exact ⟨⟨(List.forall_mem_append.1 hunbroken').2, hchain', hlast'⟩,
      fun p hp => (hjoint' p hp l' rfl).2⟩
  · rintro ⟨⟨hunbroken', hchain', hlast'⟩, hmeet⟩
    refine ⟨List.forall_mem_append.2 ⟨hbefore, hunbroken'⟩,
      List.isChain_append.2 ⟨hchain, hchain', ?_⟩, ?_⟩
    · intro p hp m hm
      obtain rfl : l' = m := Option.some.inj hm
      exact ⟨(hjoint p hp l rfl).1, hmeet p hp⟩
    · rwa [List.getLast?_append_cons]

end Lined

end Text

namespace Document

open Text

variable {s content ending : List Char} {l : Line} {ls : List Line}

theorem lined_linesOf (s : List Char) : Lined (linesOf s) := by
  rw [linesOf]
  fun_induction splitLines isUnicodeBreak s with
  | case1 => exact Lined.singleton_iff.2 ⟨unbroken_nil, rfl⟩
  | case2 s ih =>
    obtain ⟨m, ls, hls⟩ := List.exists_cons_of_ne_nil ih.ne_nil
    rw [hls] at ih ⊢
    refine Lined.cons_iff.2 ⟨unbroken_nil, ⟨.crlf, ?_⟩, ih⟩
    rintro ⟨hcr, -⟩
    exact absurd hcr (by decide)
  | case3 c s hs hc ih =>
    obtain ⟨m, ls, hls⟩ := List.exists_cons_of_ne_nil ih.ne_nil
    have hhead : s.head? = m.text.head? := by
      rw [hls] at ih
      rw [← ih.head?_flatMap, ← hls, flatMap_text_splitLines]
    rw [hls] at ih ⊢
    refine Lined.cons_iff.2 ⟨unbroken_nil, ⟨.single hc, ?_⟩, ih⟩
    rintro ⟨hcr, hlf⟩
    rw [← hhead] at hlf
    obtain ⟨t, rfl⟩ := List.head?_eq_some_iff.1 hlf
    exact hs t (Option.some.inj hcr) rfl
  | case4 c s _ _ h => exact absurd h splitLines_ne_nil
  | case5 c s _ hc l ls h ih =>
    have hc : isUnicodeBreak c = false := Bool.not_eq_true _ ▸ hc
    rw [h] at ih
    cases ls with
    | nil =>
      obtain ⟨hl, he⟩ := Lined.singleton_iff.1 ih
      exact Lined.singleton_iff.2 ⟨unbroken_cons.2 ⟨hc, hl⟩, he⟩
    | cons m ls =>
      obtain ⟨hl, ⟨he, hm⟩, hls⟩ := Lined.cons_iff.1 ih
      rw [meets_text he] at hm
      refine Lined.cons_iff.2 ⟨unbroken_cons.2 ⟨hc, hl⟩, ⟨he, ?_⟩, hls⟩
      rwa [meets_text (l := ⟨c :: l.content, l.ending⟩) he]

/-- Characters that end no line go to the front of the first line. -/
theorem linesOf_append (hc : Unbroken content) (h : linesOf s = l :: ls) :
    linesOf (content ++ s) = ⟨content ++ l.content, l.ending⟩ :: ls := by
  induction content with
  | nil => exact h
  | cons c content ih =>
    obtain ⟨hc, hcontent⟩ := unbroken_cons.1 hc
    obtain ⟨l', ls', hl', hcons⟩ := linesOf_char (s := content ++ s) hc
    obtain ⟨rfl, rfl⟩ := List.cons.inj (hl'.symm.trans (ih hcontent))
    exact hcons

theorem linesOf_ending (he : IsBreak ending) (hm : ¬ Meets ending s) :
    linesOf (ending ++ s) = ⟨[], ending⟩ :: linesOf s := by
  cases he with
  | single hc =>
    refine linesOf_break hc ?_
    rintro t rfl rfl
    exact hm ⟨rfl, rfl⟩
  | crlf => exact linesOf_crlf

/-- Lines that a text can have are the lines of their text. -/
theorem linesOf_flatMap (h : Lined ls) : linesOf (ls.flatMap Line.text) = ls := by
  induction ls with
  | nil => exact absurd rfl h.ne_nil
  | cons l ls ih =>
    obtain ⟨content, ending⟩ := l
    cases ls with
    | nil =>
      obtain ⟨hc, rfl⟩ := Lined.singleton_iff.1 h
      rw [List.flatMap_singleton, Line.text, linesOf_append hc (l := ⟨[], []⟩) rfl, List.append_nil]
    | cons m ls =>
      obtain ⟨hc, ⟨he, hm⟩, hls⟩ := Lined.cons_iff.1 h
      have hrest : ¬ Meets ending ((m :: ls).flatMap Line.text) := by
        rwa [Meets, hls.head?_flatMap, ← Meets, ← meets_text (l := ⟨content, ending⟩) he]
      rw [List.flatMap_cons, Line.text, List.append_assoc,
        linesOf_append hc (linesOf_ending he hrest), ih hls, List.append_nil]

/-- The lines of a text are the only ones that it can have. -/
theorem linesOf_eq_iff : linesOf s = ls ↔ Lined ls ∧ ls.flatMap Line.text = s := by
  constructor
  · rintro rfl
    exact ⟨lined_linesOf s, flatMap_text_splitLines⟩
  · rintro ⟨hls, rfl⟩
    exact linesOf_flatMap hls

end Document

end AnalyzerBridge
