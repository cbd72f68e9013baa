import AnalyzerBridge.Proofs.Report.ProblemLine
import AnalyzerBridge.Report.Format
import Mathlib.Logic.Relation

/-! What a report in lines does not depend on. Only the lines that give problems count, and only up to
the end line: lines of any other shape, blanks around the lines, the way in which lines end and
whatever follows the end line may be changed at will. -/
namespace AnalyzerBridge

namespace Report

variable {s t : String} {before rest lines : List (List Char)} {l : List Char}

/-- The lines of a text, each with its carriage return and without its feed. -/
def linesOf (s : String) : List (List Char) :=
  Text.feedLines s.toList

theorem trimmedLines_eq : trimmedLines s = (linesOf s).map Text.trim := by
  have hlines := Text.splitLines_feedLines (s := s.toList)
  rw [trimmedLines, linesOf]
  generalize Text.splitLines Text.isFeed s.toList = ls at hlines ⊢
  generalize Text.feedLines s.toList = pieces at hlines ⊢
  induction hlines with
  | nil => rfl
  | cons hpiece _ ih =>
    rw [List.map_cons, List.map_cons, ih]
    rcases hpiece with rfl | rfl
    · rfl
    · rw [Text.trim_append_blank (List.forall_mem_singleton.2 (by decide))]

section Scan

/-- Lines that are cut before the first end line, or behind all of them if there is none. -/
structure EndsAt (lines before rest : List (List Char)) : Prop where
  text : lines = before ++ rest
  noEnd : ∀ l ∈ before, Text.trim l ≠ endLine
  ended : ∀ l ∈ rest.head?, Text.trim l = endLine

theorem exists_endsAt (lines : List (List Char)) : ∃ before rest, EndsAt lines before rest := by
  induction lines with
  | nil => exact ⟨[], [], rfl, by simp, by simp⟩
  | cons l lines ih =>
    by_cases hl : Text.trim l = endLine
    · refine ⟨[], l :: lines, rfl, by simp, ?_⟩
      intro d hd
      obtain rfl := Option.some.inj hd
      exact hl
    · obtain ⟨before, rest, rfl, hno, hended⟩ := ih
      refine ⟨l :: before, rest, rfl, ?_, hended⟩
      intro d hd
      rcases List.mem_cons.1 hd with rfl | hd
      · exact hl
      · exact hno d hd

theorem EndsAt.prepend (h : EndsAt lines before rest) {more : List (List Char)}
    (hmore : ∀ l ∈ more, Text.trim l ≠ endLine) : EndsAt (more ++ lines) (more ++ before) rest := by
  refine ⟨by rw [h.text, List.append_assoc], ?_, h.ended⟩
  intro l hl
  rcases List.mem_append.1 hl with hl | hl
  · exact hmore l hl
  · exact h.noEnd l hl

/-- What is behind an end line is behind the first one. -/
theorem EndsAt.append_end (h : EndsAt lines before rest) (hl : Text.trim l = endLine)
    (more : List (List Char)) : EndsAt (lines ++ l :: more) before (rest ++ l :: more) := by
  refine ⟨by rw [h.text, List.append_assoc], h.noEnd, ?_⟩
  intro d hd
  cases rest with
  | nil =>
    obtain rfl := Option.some.inj hd
    exact hl
  | cons e rest => exact h.ended d hd

/-- A report is told by the lines before the first end line, and by whether there is one. -/
theorem ofLines_eq (h : EndsAt (linesOf s) before rest) :
    ofLines s = ⟨if rest ≠ [] ∧ before.filterMap (problemOn ∘ Text.trim) = [] then .ok else .failed,
      before.filterMap (problemOn ∘ Text.trim), [], .empty⟩ := by
  have hlines : trimmedLines s = before.map Text.trim ++ rest.map Text.trim := by
    rw [trimmedLines_eq, h.text, List.map_append]
  have hbefore : ∀ l ∈ before.map Text.trim, decide (l ≠ endLine) = true := by
    intro l hl
    obtain ⟨b, hb, rfl⟩ := List.mem_map.1 hl
    exact decide_eq_true (h.noEnd b hb)
  have htake : (trimmedLines s).takeWhile (· ≠ endLine) = before.map Text.trim := by
    rw [hlines, List.takeWhile_append_of_pos hbefore]
    cases rest with
    | nil => simp
    | cons d rest => simp [h.ended d rfl]
  have hcontains : (trimmedLines s).contains endLine = true ↔ rest ≠ [] := by
    rw [List.contains_iff_mem, hlines, List.mem_append]
    cases rest with
    | nil => simpa using h.noEnd
    | cons d rest => simp [h.ended d rfl]
  simp only [ofLines, htake, Bool.and_eq_true, hcontains, List.isEmpty_iff, List.filterMap_map]
  rfl

theorem problemOn_eq_none : problemOn l = none ↔ ∀ p, ProblemLine.ofText l ≠ .ok p := by
  rw [problemOn]
  cases ProblemLine.ofText l with
  | error f => simp [Except.toOption]
  | ok p => simp [Except.toOption]

end Scan

section Edits

/-- A line that is blank, or that neither gives a problem nor ends the problems. -/
def Idle (l : List Char) : Prop :=
  (∀ c ∈ l, Text.isBlank c = true) ∨
    Text.trim l ≠ endLine ∧ ∀ p, ProblemLine.ofText (Text.trim l) ≠ .ok p

theorem Idle.problemOn (h : Idle l) : problemOn (Text.trim l) = none := by
  rcases h with hblank | ⟨_, hno⟩
  · rw [Text.trim_of_blank hblank]
    rfl
  · exact problemOn_eq_none.2 hno

theorem Idle.ne_endLine (h : Idle l) : Text.trim l ≠ endLine := by
  rcases h with hblank | ⟨hne, _⟩
  · rw [Text.trim_of_blank hblank]
    decide
  · exact hne

/-- One change that is not to matter. -/
inductive Edit (s t : String) : Prop
  | idleLine {before after : List (List Char)} {l : List Char} : linesOf s = before ++ after →
      linesOf t = before ++ l :: after → (∀ b ∈ before, Text.trim b ≠ endLine) → Idle l → Edit s t
  | afterEnd {before more more' : List (List Char)} {l : List Char} :
      linesOf s = before ++ l :: more → linesOf t = before ++ l :: more' → Text.trim l = endLine →
      Edit s t
  | carriageReturn {a b : List Char} : s.toList = a ++ '\n' :: b →
      t.toList = a ++ '\r' :: '\n' :: b → Edit s t
  | padding {before after : List (List Char)} {l pre post : List Char} :
      linesOf s = before ++ l :: after → linesOf t = before ++ (pre ++ l ++ post) :: after →
      (∀ c ∈ pre ++ post, Text.isBlank c = true ∧ c ≠ '\n') → Edit s t
  | finalFeed : t = s ++ "\n" → Edit s t

theorem ofLines_idleLine {after : List (List Char)} (hs : linesOf s = before ++ after)
    (ht : linesOf t = before ++ l :: after) (hbefore : ∀ b ∈ before, Text.trim b ≠ endLine)
    (hl : Idle l) : ofLines s = ofLines t := by
  obtain ⟨x, rest, hafter⟩ := exists_endsAt after
  have hsingle : ∀ d ∈ [l], Text.trim d ≠ endLine := by
    intro d hd
    obtain rfl := List.mem_singleton.1 hd
    exact hl.ne_endLine
  have hline : EndsAt (l :: after) (l :: x) rest := hafter.prepend hsingle
  rw [ofLines_eq (hs ▸ hafter.prepend hbefore), ofLines_eq (ht ▸ hline.prepend hbefore)]
  simp [hl.problemOn]

theorem ofLines_afterEnd {more more' : List (List Char)} (hs : linesOf s = before ++ l :: more)
    (ht : linesOf t = before ++ l :: more') (hl : Text.trim l = endLine) : ofLines s = ofLines t := by
  obtain ⟨x, rest, hbefore⟩ := exists_endsAt before
  rw [ofLines_eq (hs ▸ hbefore.append_end hl more), ofLines_eq (ht ▸ hbefore.append_end hl more')]
  simp

theorem ofLines_of_trimmed (h : trimmedLines s = trimmedLines t) : ofLines s = ofLines t := by
  rw [ofLines, ofLines, h]

theorem trimmedLines_carriageReturn {a b : List Char} (hs : s.toList = a ++ '\n' :: b)
    (ht : t.toList = a ++ '\r' :: '\n' :: b) : trimmedLines s = trimmedLines t := by
  obtain ⟨before, l, ha, har⟩ := Text.feedLines_concat (s := a) (c := '\r') (by decide)
  have ht : t.toList = (a ++ ['\r']) ++ '\n' :: b := by simp [ht]
  have htrim : Text.trim (l ++ ['\r']) = Text.trim l :=
    Text.trim_append_blank (List.forall_mem_singleton.2 (by decide))
  rw [trimmedLines_eq, trimmedLines_eq, linesOf, linesOf, hs, ht, Text.feedLines_append_feed,
    Text.feedLines_append_feed, ha, har]
  simp [htrim]

theorem trimmedLines_padding {after : List (List Char)} {pre post : List Char}
    (hs : linesOf s = before ++ l :: after) (ht : linesOf t = before ++ (pre ++ l ++ post) :: after)
    (hblank : ∀ c ∈ pre ++ post, Text.isBlank c = true) : trimmedLines s = trimmedLines t := by
  rw [trimmedLines_eq, trimmedLines_eq, hs, ht]
  simpa using (Text.trim_padded hblank).symm

/-- A final feed is a blank line, before the end line or after it. -/
theorem ofLines_finalFeed : ofLines s = ofLines (s ++ "\n") := by
  have hlines : linesOf (s ++ "\n") = linesOf s ++ [[]] := by
    rw [linesOf, String.toList_append]
    exact Text.feedLines_append_feed (t := [])
  by_cases hend : ∃ l ∈ linesOf s, Text.trim l = endLine
  · obtain ⟨l, hmem, hl⟩ := hend
    obtain ⟨before, more, hs⟩ := List.append_of_mem hmem
    have hmore : linesOf (s ++ "\n") = before ++ l :: (more ++ [[]]) := by
      rw [hlines, hs]
      simp
    exact ofLines_afterEnd hs hmore hl
  · have hs : linesOf s = linesOf s ++ [] := (List.append_nil _).symm
    refine ofLines_idleLine hs hlines ?_ (.inl (by simp))
    intro b hb hl
    exact hend ⟨b, hb, hl⟩

/-- No change of this kind matters. -/
theorem Edit.ofLines_eq (h : Edit s t) : ofLines s = ofLines t := by
  cases h with
  | idleLine hs ht hbefore hl => exact ofLines_idleLine hs ht hbefore hl
  | afterEnd hs ht hl => exact ofLines_afterEnd hs ht hl
  | carriageReturn hs ht => exact ofLines_of_trimmed (trimmedLines_carriageReturn hs ht)
  | padding hs ht hblank =>
    apply ofLines_of_trimmed
    apply trimmedLines_padding hs ht
    intro c hc
    exact (hblank c hc).1
  | finalFeed ht =>
    subst ht
    exact ofLines_finalFeed

/-- Nor does any number of such changes, made or undone. -/
theorem ofLines_of_eqvGen (h : Relation.EqvGen Edit s t) : ofLines s = ofLines t := by
  induction h with
  | rel s t h => exact h.ofLines_eq
  | refl s => rfl
  | symm s t _ ih => exact ih.symm
  | trans s t u _ _ hst htu => exact hst.trans htu

end Edits

/-- What a problem has that stands on a line. -/
structure Placed (p : Problem) : Prop where
  line : 1 ≤ p.line
  length : p.length.isSome = true
  code : ∃ code, p.code = some code ∧ code ≠ ""
  shown : p.generic = false

theorem placed_of_problemOn {p : Problem} (h : problemOn l = some p) : Placed p := by
  rw [problemOn] at h
  rcases ProblemLine.ofText_cases l with ⟨_, m, _, hmeans, hok⟩ | ⟨f, _, herror⟩
  · rw [hok] at h
    obtain rfl := Option.some.inj h
    exact ⟨hmeans.lineGiven, rfl, ⟨m.code, rfl, hmeans.codeGiven⟩, rfl⟩
  · rw [herror] at h
    cases h

/-- Reading lines ignores exactly what is idle. The problems are those of the lines before the first end
line, in their order, and all is well exactly if there is an end line and no problem before it. No
number of idle changes, made or undone, makes a difference. Nothing else is ever reported, and each
problem has its place, its width and its code, and is shown. -/
theorem lines_ignore_idle (s : String) : ∃ r, Format.legacy.read s = .ok r ∧
    (∃ before rest, linesOf s = before ++ rest ∧
      (∀ l ∈ before, Text.trim l ≠ endLine) ∧ (∀ l ∈ rest.head?, Text.trim l = endLine) ∧
      r.problems = (before.filterMap fun l =>
        (ProblemLine.ofText (Text.trim l)).toOption).map ProblemLine.problem ∧
      (r.verdict = .ok ↔
        rest ≠ [] ∧ ∀ l ∈ before, ∀ p, ProblemLine.ofText (Text.trim l) ≠ .ok p)) ∧
    (∀ t, Relation.EqvGen Edit s t → Format.legacy.read t = .ok r) ∧
    r.symbols = [] ∧ r.listings = .empty ∧
    ∀ p ∈ r.problems, 1 ≤ p.line ∧ p.length.isSome = true ∧ p.generic = false ∧
      ∃ code, p.code = some code ∧ code ≠ "" := by
  obtain ⟨before, rest, hends⟩ := exists_endsAt (linesOf s)
  have heq := ofLines_eq hends
  refine ⟨ofLines s, rfl, ⟨before, rest, hends.text, hends.noEnd, hends.ended, ?_, ?_⟩, ?_, rfl, rfl,
    ?_⟩
  · rw [heq, List.map_filterMap]
    rfl
  · have hnone : before.filterMap (problemOn ∘ Text.trim) = [] ↔
        ∀ l ∈ before, ∀ p, ProblemLine.ofText (Text.trim l) ≠ .ok p := by
      simp only [List.filterMap_eq_nil_iff, Function.comp_apply, problemOn_eq_none]
    rw [heq, ← hnone]
    by_cases h : rest ≠ [] ∧ before.filterMap (problemOn ∘ Text.trim) = []
    · simp [h]
    · have hfailed : (if rest ≠ [] ∧ before.filterMap (problemOn ∘ Text.trim) = [] then Verdict.ok
          else .failed) = .failed := if_neg h
      rw [hfailed]
      constructor
      · intro hno
        cases hno
      · intro hyes
        exact absurd hyes h
  · intro t ht
    exact congrArg Except.ok (ofLines_of_eqvGen ht).symm
  · intro p hp
    rw [heq] at hp
    obtain ⟨l, _, hl⟩ := List.mem_filterMap.1 hp
    have hplaced := placed_of_problemOn hl
    exact ⟨hplaced.line, hplaced.length, hplaced.shown, hplaced.code⟩

/-- A broken line before a problem, taken out again; then blanks around the problem, a carriage return
and more behind the end line. The one problem stays the report. -/
theorem lines_ignore_idle_noisy :
    Edit "[E1, 1, 0, 2]: bad\nOK" "[oops\n[E1, 1, 0, 2]: bad\nOK" ∧
    Relation.EqvGen Edit "[oops\n[E1, 1, 0, 2]: bad\nOK"
      "\t[E1, 1, 0, 2]: bad\r\nOK\n[E2, 1, 0, 2]: x\n" ∧
    Format.legacy.read "\t[E1, 1, 0, 2]: bad\r\nOK\n[E2, 1, 0, 2]: x\n" =
      .ok ⟨.failed, [⟨1, 0, "", "bad", false, some "E1", some 2⟩], [], .empty⟩ := by
  have hbroken : Edit "[E1, 1, 0, 2]: bad\nOK" "[oops\n[E1, 1, 0, 2]: bad\nOK" := by
    refine @Edit.idleLine _ _ [] _ "[oops".toList rfl (by decide) (by decide) (.inr ?_)
    have hfault : ProblemLine.ofText (Text.trim "[oops".toList) = .error .noMarker := by decide
    refine ⟨by decide, ?_⟩
    intro p hp
    rw [hfault] at hp
    cases hp
  have hpadded : Edit "[E1, 1, 0, 2]: bad\nOK" "\t[E1, 1, 0, 2]: bad\nOK" :=
    @Edit.padding _ _ [] _ _ ['\t'] [] rfl (by decide)
      (List.forall_mem_singleton.2 ⟨by decide, by decide⟩)
  have hreturn : Edit "\t[E1, 1, 0, 2]: bad\nOK" "\t[E1, 1, 0, 2]: bad\r\nOK" :=
    @Edit.carriageReturn _ _ "\t[E1, 1, 0, 2]: bad".toList endLine (by decide) (by decide)
  have hmore : Edit "\t[E1, 1, 0, 2]: bad\r\nOK" "\t[E1, 1, 0, 2]: bad\r\nOK\n[E2, 1, 0, 2]: x" :=
    @Edit.afterEnd _ _ ["\t[E1, 1, 0, 2]: bad\r".toList] [] ["[E2, 1, 0, 2]: x".toList] endLine
      (by decide) (by decide) (by decide)
  have hfeed : Edit "\t[E1, 1, 0, 2]: bad\r\nOK\n[E2, 1, 0, 2]: x"
      "\t[E1, 1, 0, 2]: bad\r\nOK\n[E2, 1, 0, 2]: x\n" := .finalFeed (by decide)
  have hedits := (Relation.EqvGen.rel _ _ hbroken).symm.trans _ _ _ <|
    (Relation.EqvGen.rel _ _ hpadded).trans _ _ _ <| (Relation.EqvGen.rel _ _ hreturn).trans _ _ _ <|
    (Relation.EqvGen.rel _ _ hmore).trans _ _ _ (.rel _ _ hfeed)
  obtain ⟨r, hr, _, hsame, _⟩ := lines_ignore_idle "[oops\n[E1, 1, 0, 2]: bad\nOK"
  refine ⟨hbroken, hedits, ?_⟩
  rw [hsame _ hedits, ← hr]
  decide

end Report

end AnalyzerBridge
