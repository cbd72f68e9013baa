import AnalyzerBridge.Text.Blank
import AnalyzerBridge.Text.Fields
import AnalyzerBridge.Text.Lines
import Mathlib.Data.List.DropRight

/-! Texts that are put together from pieces are taken apart into these pieces again: lines with a
feed between them, fields with a comma, and texts with blanks around them. -/
namespace AnalyzerBridge.Text

variable {s t : List Char} {c : Char}

section Blanks

theorem trimEnd_eq_rdropWhile : trimEnd s = s.rdropWhile isBlank := rfl

theorem trimEnd_trimEnd : trimEnd (trimEnd s) = trimEnd s :=
  List.rdropWhile_idempotent isBlank s

/-- A trimmed text has no blank at its end. -/
theorem trimEnd_of_trim (h : trim s = s) : trimEnd s = s := by
  rw [← h, trim, trimEnd_trimEnd]

theorem isBlank_of_getLast? (h : trim s = s) (hc : s.getLast? = some c) : isBlank c = false := by
  have hend := trimEnd_of_trim h
  rw [trimEnd_eq_rdropWhile, List.rdropWhile_eq_self_iff] at hend
  obtain ⟨hne, rfl⟩ := List.mem_getLast?_eq_getLast (Option.mem_def.2 hc)
  simpa using hend hne

theorem trimEnd_cons (hs : s ≠ []) (h : trimEnd s = s) : trimEnd (c :: s) = c :: s := by
  rw [trimEnd_eq_rdropWhile, List.rdropWhile_eq_self_iff] at h ⊢
  intro hne
  rw [List.getLast_cons hs]
  exact h hs

theorem trimEnd_concat (h : isBlank c = false) : trimEnd (s ++ [c]) = s ++ [c] := by
  rw [trimEnd_eq_rdropWhile]
  exact List.rdropWhile_concat_neg isBlank s c (by simp [h])

/-- What stands before a text without blanks at its end is kept. -/
theorem trimEnd_append (h : trimEnd s = s) : trimEnd (s ++ t) = s ++ trimEnd t := by
  induction t using List.reverseRecOn with
  | nil => rw [List.append_nil, h, trimEnd, List.reverse_nil, List.dropWhile_nil, List.reverse_nil,
      List.append_nil]
  | append_singleton t c ih =>
    rw [← List.append_assoc]
    cases hc : isBlank c with
    | false => rw [trimEnd_concat hc, trimEnd_concat hc, List.append_assoc]
    | true =>
      rw [trimEnd_eq_rdropWhile, trimEnd_eq_rdropWhile, List.rdropWhile_concat_pos _ _ _ hc,
        List.rdropWhile_concat_pos _ _ _ hc]
      exact ih

theorem trim_cons_blank (h : isBlank c = true) : trim (c :: s) = trim s := by
  rw [trim, trim, trimStart, trimStart, List.dropWhile_cons_of_pos h]

theorem trim_cons (h : isBlank c = false) : trim (c :: s) = trimEnd (c :: s) := by
  rw [trim, trimStart, List.dropWhile_cons_of_neg (by simp [h])]

/-- A text without any blank is trimmed. -/
theorem trim_eq_self (h : ∀ c ∈ s, isBlank c = false) : trim s = s := by
  cases s with
  | nil => rfl
  | cons c s =>
    rw [trim_cons (h c (by simp)), trimEnd_eq_rdropWhile, List.rdropWhile_eq_self_iff]
    intro hne
    simp [h _ (List.getLast_mem hne)]

theorem trim_of_blank (h : ∀ c ∈ s, isBlank c = true) : trim s = [] := by
  have hstart : trimStart s = [] := List.dropWhile_eq_nil_iff.2 h
  rw [trim, hstart]
  rfl

theorem trimEnd_append_blank (ht : ∀ c ∈ t, isBlank c = true) : trimEnd (s ++ t) = trimEnd s := by
  induction t using List.reverseRecOn with
  | nil => rw [List.append_nil]
  | append_singleton t c ih =>
    have hc : isBlank c = true := ht c (by simp)
    rw [← List.append_assoc, trimEnd_eq_rdropWhile, List.rdropWhile_concat_pos _ _ _ hc]
    apply ih
    intro d hd
    exact ht d (by simp [hd])

theorem trim_append_blank (ht : ∀ c ∈ t, isBlank c = true) : trim (s ++ t) = trim s := by
  induction s with
  | nil => exact trim_of_blank ht
  | cons c s ih =>
    by_cases hc : isBlank c = true
    · rw [List.cons_append, trim_cons_blank hc, trim_cons_blank hc]
      exact ih
    · have hc : isBlank c = false := by simpa using hc
      rw [List.cons_append, trim_cons hc, trim_cons hc, ← List.cons_append]
      exact trimEnd_append_blank ht

theorem trim_blank_append (hs : ∀ c ∈ s, isBlank c = true) : trim (s ++ t) = trim t := by
  induction s with
  | nil => rfl
  | cons c s ih =>
    rw [List.cons_append, trim_cons_blank (hs c (by simp))]
    apply ih
    intro d hd
    exact hs d (List.mem_cons_of_mem _ hd)

/-- Blanks around a text are trimmed away. -/
theorem trim_padded {pre post : List Char} (h : ∀ c ∈ pre ++ post, isBlank c = true) :
    trim (pre ++ s ++ post) = trim s := by
  have hpre : ∀ c ∈ pre, isBlank c = true := fun c hc => h c (List.mem_append_left _ hc)
  have hpost : ∀ c ∈ post, isBlank c = true := fun c hc => h c (List.mem_append_right _ hc)
  rw [trim_append_blank hpost, trim_blank_append hpre]

end Blanks

section Lines

/-- A line that ends with a feed is split off. -/
theorem splitLines_line (h : '\n' ∉ s) (hr : s.getLast? ≠ some '\r') :
    splitLines isFeed (s ++ '\n' :: t) = ⟨s, ['\n']⟩ :: splitLines isFeed t := by
  induction s with
  | nil => simp [splitLines, isFeed]
  | cons c s ih =>
    obtain ⟨hc, hs⟩ : '\n' ≠ c ∧ '\n' ∉ s := by simpa using h
    have hfeed : isFeed c = false := by simpa [isFeed] using Ne.symm hc
    have hlast : s.getLast? ≠ some '\r' := by
      intro hlast
      cases s with
      | nil => cases hlast
      | cons d s => exact hr (by rw [List.getLast?_cons_cons]; exact hlast)
    -- a carriage return is no break, as no feed follows it
    have hno : ∀ rest, c = '\r' → s ++ '\n' :: t = '\n' :: rest → False := by
      rintro rest rfl heq
      cases s with
      | nil => exact hr rfl
      | cons d s =>
        obtain ⟨rfl, _⟩ := List.cons.inj heq
        exact hs (by simp)
    rw [List.cons_append, splitLines, hfeed, ih hs hlast]
    · rfl
    · exact hno

/-- The pieces between line feeds. A carriage return before a feed is the end of its piece. -/
def feedLines (s : List Char) : List (List Char) :=
  s.splitOn '\n'

theorem feedLines_append_feed : feedLines (s ++ '\n' :: t) = feedLines s ++ feedLines t :=
  List.splitOnP_append_cons s t (by decide)

theorem feedLines_cons (hc : c ≠ '\n') : feedLines (c :: s) = (feedLines s).modifyHead (c :: ·) := by
  have hne : ¬ (c == '\n') = true := by simpa using hc
  rw [feedLines, List.splitOn_eq_splitOnP, List.splitOnP_cons_eq_if_modifyHead, if_neg hne]
  rfl

theorem feedLines_ne_nil : feedLines s ≠ [] :=
  List.splitOn_ne_nil '\n' s

/-- A character at the end of a text belongs to its last line. -/
theorem feedLines_concat (hc : c ≠ '\n') :
    ∃ before l, feedLines s = before ++ [l] ∧ feedLines (s ++ [c]) = before ++ [l ++ [c]] := by
  induction s with
  | nil => exact ⟨[], [], rfl, feedLines_cons hc⟩
  | cons d s ih =>
    obtain ⟨before, l, hs, hsc⟩ := ih
    by_cases hd : d = '\n'
    · subst hd
      have hfeed : ∀ t, feedLines ('\n' :: t) = [] :: feedLines t := fun t =>
        feedLines_append_feed (s := [])
      refine ⟨[] :: before, l, ?_, ?_⟩
      · rw [hfeed, hs]
        rfl
      · rw [List.cons_append, hfeed, hsc]
        rfl
    · rw [List.cons_append, feedLines_cons hd, feedLines_cons hd, hs, hsc]
      cases before with
      | nil => exact ⟨[], d :: l, rfl, rfl⟩
      | cons b before => exact ⟨(d :: b) :: before, l, rfl, rfl⟩

/-- The lines of a text are its pieces between feeds, but for the carriage returns at their ends. -/
theorem splitLines_feedLines :
    List.Forall₂ (fun l piece => piece = l.content ∨ piece = l.content ++ ['\r'])
      (splitLines isFeed s) (feedLines s) := by
  have hfeed : ∀ t, feedLines ('\n' :: t) = [] :: feedLines t := fun t =>
    feedLines_append_feed (s := [])
  fun_induction splitLines isFeed s with
  | case1 => exact .cons (.inl rfl) .nil
  | case2 s ih =>
    rw [feedLines_cons (by decide), hfeed]
    exact .cons (.inr rfl) ih
  | case3 c s _ hc ih =>
    obtain rfl : c = '\n' := by simpa [isFeed] using hc
    rw [hfeed]
    exact .cons (.inl rfl) ih
  | case4 c s _ _ h => exact absurd h splitLines_ne_nil
  | case5 c s _ hc l ls h ih =>
    have hne : c ≠ '\n' := by simpa [isFeed] using hc
    rw [h] at ih
    rw [feedLines_cons hne]
    cases hs : feedLines s with
    | nil => exact absurd hs feedLines_ne_nil
    | cons piece pieces =>
      rw [hs] at ih
      obtain ⟨hpiece, hpieces⟩ := List.forall₂_cons.1 ih
      refine .cons ?_ hpieces
      rcases hpiece with rfl | rfl
      · exact .inl rfl
      · exact .inr rfl

end Lines

section Fields

theorem splitComma_self (h : ',' ∉ s) : splitComma s = [s] := by
  induction s with
  | nil => rfl
  | cons c s ih =>
    obtain ⟨hc, hs⟩ : ',' ≠ c ∧ ',' ∉ s := by simpa using h
    rw [splitComma, if_neg (Ne.symm hc), ih hs]

/-- A field before a comma is split off. -/
theorem splitComma_field (h : ',' ∉ s) : splitComma (s ++ ',' :: t) = s :: splitComma t := by
  induction s with
  | nil => rw [List.nil_append, splitComma, if_pos rfl]
  | cons c s ih =>
    obtain ⟨hc, hs⟩ : ',' ≠ c ∧ ',' ∉ s := by simpa using h
    rw [List.cons_append, splitComma, if_neg (Ne.symm hc), ih hs]

end Fields

end AnalyzerBridge.Text
