import AnalyzerBridge.Text.Lines
import Mathlib.Data.List.Basic

/-! Texts one behind the other with a feed after each. Whatever else ends a line, a feed does, so the
lines of the whole are the lines of the first, then those of the second, and so on. A text is one line
of it exactly if nothing in the text ends the line ahead of the feed. -/
namespace AnalyzerBridge.Text

/-- No character of a text ends a line. -/
def Free (stops : Char → Bool) (s : List Char) : Prop :=
  ∀ c ∈ s, stops c = false

instance (stops : Char → Bool) (s : List Char) : Decidable (Free stops s) :=
  List.decidableBAll (fun c => stops c = false) s

/-- A text that is one line if a feed is put behind it: nothing in it ends a line, except that a
carriage return at its end becomes one break with the feed. -/
def OnOneLine (stops : Char → Bool) (s : List Char) : Prop :=
  ∃ t, Free stops t ∧ (s = t ∨ s = t ++ ['\r'])

/-- The lines of a text with a feed behind it. Nothing is left for another line behind the feed. -/
def closedLines (stops : Char → Bool) (s : List Char) : List Line :=
  (splitLines stops (s ++ ['\n'])).dropLast

variable {stops : Char → Bool} {c : Char} {s t rest : List Char} {l : Line}
  {pieces : List (List Char)}

theorem free_cons : Free stops (c :: s) ↔ stops c = false ∧ Free stops s :=
  List.forall_mem_cons

theorem free_append : Free stops (s ++ t) ↔ Free stops s ∧ Free stops t :=
  List.forall_mem_append

namespace OnOneLine

theorem of_free (h : Free stops s) : OnOneLine stops s :=
  ⟨s, h, .inl rfl⟩

/-- Without a carriage return at the end no character may end a line. -/
theorem concat_iff (hc : c ≠ '\r') : OnOneLine stops (s ++ [c]) ↔ Free stops (s ++ [c]) := by
  constructor
  · rintro ⟨t, ht, h | h⟩
    · rwa [h]
    · obtain ⟨-, hlast⟩ := List.append_inj' h rfl
      exact absurd (List.cons.inj hlast).1 hc
  · exact of_free

/-- Characters in front that end no line make no difference. -/
theorem append_iff (hs : Free stops s) (hend : s.getLast? ≠ some '\r') :
    OnOneLine stops (s ++ t) ↔ OnOneLine stops t := by
  constructor
  · rintro ⟨u, hu, rfl | h⟩
    · exact of_free (free_append.1 hu).2
    · rcases List.eq_nil_or_concat t with rfl | ⟨t, c, rfl⟩
      · exact absurd (by rw [← List.append_nil s, h, List.getLast?_concat]) hend
      · rw [List.concat_eq_append, ← List.append_assoc] at h
        obtain ⟨rfl, hc⟩ := List.append_inj' h rfl
        exact ⟨t, (free_append.1 hu).2, .inr (by rw [List.concat_eq_append, hc])⟩
  · rintro ⟨u, hu, rfl | rfl⟩
    · exact of_free (free_append.2 ⟨hs, hu⟩)
    · exact ⟨s ++ u, free_append.2 ⟨hs, hu⟩, .inr (List.append_assoc ..).symm⟩

end OnOneLine

/-- A feed behind a text makes a new pair with a carriage return only if the text is that. -/
theorem no_crlf_append (hs : ∀ u, c = '\r' → s = '\n' :: u → False) (hne : c = '\r' → s ≠ []) :
    ∀ u, c = '\r' → s ++ '\n' :: t = '\n' :: u → False := by
  rintro u rfl h
  cases s with
  | nil => exact hne rfl rfl
  | cons d s =>
    obtain ⟨rfl, -⟩ := List.cons.inj h
    exact hs s rfl rfl

theorem exists_closed (hfeed : stops '\n' = true) (s : List Char) : ∃ ls, ls ≠ [] ∧
    ∀ t, splitLines stops (s ++ '\n' :: t) = ls ++ splitLines stops t := by
  -- a carriage return alone is one break with the feed, whether it is a stop or not
  have hreturn : ∃ ls, ls ≠ [] ∧
      ∀ t, splitLines stops (['\r'] ++ '\n' :: t) = ls ++ splitLines stops t :=
    ⟨[⟨[], ['\r', '\n']⟩], List.cons_ne_nil _ _, fun t => by rw [List.singleton_append, splitLines,
      List.singleton_append]⟩
  fun_induction splitLines stops s with
  | case1 =>
    refine ⟨[⟨[], ['\n']⟩], List.cons_ne_nil _ _, fun t => ?_⟩
    rw [List.nil_append, splitLines, if_pos hfeed]
    · rfl
    · intro _ hcr
      exact absurd hcr (by decide)
  | case2 s ih =>
    obtain ⟨ls, -, hls⟩ := ih
    refine ⟨⟨[], ['\r', '\n']⟩ :: ls, List.cons_ne_nil _ _, fun t => ?_⟩
    rw [List.cons_append, List.cons_append, splitLines, hls, List.cons_append]
  | case3 c s hs hc ih =>
    by_cases hcr : c = '\r' ∧ s = []
    · obtain ⟨rfl, rfl⟩ := hcr
      exact hreturn
    · obtain ⟨ls, -, hls⟩ := ih
      refine ⟨⟨[], [c]⟩ :: ls, List.cons_ne_nil _ _, fun t => ?_⟩
      rw [List.cons_append, splitLines, if_pos hc, hls, List.cons_append]
      exact no_crlf_append hs fun h hnil => hcr ⟨h, hnil⟩
  | case4 c s _ _ h => exact absurd h splitLines_ne_nil
  | case5 c s hs hc _ _ _ ih =>
    by_cases hcr : c = '\r' ∧ s = []
    · obtain ⟨rfl, rfl⟩ := hcr
      exact hreturn
    · obtain ⟨ls, hne, hls⟩ := ih
      obtain ⟨l, ls, rfl⟩ := List.exists_cons_of_ne_nil hne
      refine ⟨⟨c :: l.content, l.ending⟩ :: ls, List.cons_ne_nil _ _, fun t => ?_⟩
      rw [List.cons_append, splitLines, if_neg hc, hls]
      · rfl
      · exact no_crlf_append hs fun h hnil => hcr ⟨h, hnil⟩

/-- What stands behind a feed does not change the lines ahead of it. -/
theorem splitLines_append_feed (hfeed : stops '\n' = true) :
    splitLines stops (s ++ '\n' :: t) = closedLines stops s ++ splitLines stops t := by
  obtain ⟨ls, -, hls⟩ := exists_closed hfeed s
  rw [closedLines, hls, hls, splitLines, List.dropLast_concat]

theorem closedLines_ne_nil (hfeed : stops '\n' = true) : closedLines stops s ≠ [] := by
  obtain ⟨ls, hne, hls⟩ := exists_closed hfeed s
  rwa [closedLines, hls, splitLines, List.dropLast_concat]

theorem splitLines_closed (hfeed : stops '\n' = true) :
    splitLines stops (s ++ ['\n']) = closedLines stops s ++ [⟨[], []⟩] := by
  rw [splitLines_append_feed hfeed, splitLines]

theorem flatMap_text_closedLines (hfeed : stops '\n' = true) :
    (closedLines stops s).flatMap Line.text = s ++ ['\n'] := by
  have htext : (splitLines stops (s ++ ['\n'])).flatMap Line.text = s ++ ['\n'] :=
    flatMap_text_splitLines
  rw [splitLines_closed hfeed, List.flatMap_append] at htext
  simpa [Line.text] using htext

/-- A line has no stop but in its break, which is one character or a pair. -/
theorem free_of_mem_splitLines (h : l ∈ splitLines stops s) : Free stops l.content ∧
    (l.ending = [] ∨ (∃ c, l.ending = [c]) ∨ l.ending = ['\r', '\n']) := by
  fun_induction splitLines stops s generalizing l with
  | case1 =>
    obtain rfl := List.mem_singleton.1 h
    exact ⟨List.forall_mem_nil _, .inl rfl⟩
  | case2 s ih =>
    obtain rfl | h := List.mem_cons.1 h
    · exact ⟨List.forall_mem_nil _, .inr (.inr rfl)⟩
    · exact ih h
  | case3 c s _ _ ih =>
    obtain rfl | h := List.mem_cons.1 h
    · exact ⟨List.forall_mem_nil _, .inr (.inl ⟨c, rfl⟩)⟩
    · exact ih h
  | case4 c s _ _ hnil => exact absurd hnil splitLines_ne_nil
  | case5 c s _ hc m ls hls ih =>
    rw [hls] at ih
    obtain rfl | h := List.mem_cons.1 h
    · obtain ⟨hcontent, hending⟩ := ih List.mem_cons_self
      exact ⟨free_cons.2 ⟨Bool.not_eq_true _ ▸ hc, hcontent⟩, hending⟩
    · exact ih (List.mem_cons_of_mem _ h)

theorem onOneLine_of_singleton (hfeed : stops '\n' = true) (h : closedLines stops s = [l]) :
    OnOneLine stops s := by
  have htext := flatMap_text_closedLines (s := s) hfeed
  rw [h, List.flatMap_singleton] at htext
  have hmem : l ∈ splitLines stops (s ++ ['\n']) := by
    rw [splitLines_closed hfeed, h]
    exact List.mem_cons_self
  obtain ⟨hfree, hending⟩ := free_of_mem_splitLines hmem
  refine ⟨l.content, hfree, ?_⟩
  rw [Line.text] at htext
  rcases hending with he | ⟨c, he⟩ | he <;> rw [he] at htext
  · rw [List.append_nil] at htext
    have hlast := hfree '\n' (by rw [htext]; exact List.mem_append_right _ List.mem_cons_self)
    exact absurd (hfeed.symm.trans hlast) (by decide)
  · exact .inl (List.append_inj' htext rfl).1.symm
  · have hpair : l.content ++ ['\r'] ++ ['\n'] = s ++ ['\n'] := by rwa [List.append_assoc]
    exact .inr (List.append_cancel_right hpair).symm

theorem exists_line (hfeed : stops '\n' = true) (ht : Free stops t)
    (hs : s = '\n' :: rest ∨ s = '\r' :: '\n' :: rest) :
    ∃ l, splitLines stops (t ++ s) = l :: splitLines stops rest := by
  induction t with
  | nil =>
    rcases hs with rfl | rfl
    · refine ⟨⟨[], ['\n']⟩, ?_⟩
      rw [List.nil_append, splitLines, if_pos hfeed]
      intro _ hcr
      exact absurd hcr (by decide)
    · exact ⟨⟨[], ['\r', '\n']⟩, by rw [List.nil_append, splitLines]⟩
  | cons c t ih =>
    obtain ⟨hc, hfree⟩ := free_cons.1 ht
    by_cases hcr : c = '\r' ∧ t = [] ∧ s = '\n' :: rest
    · obtain ⟨rfl, rfl, rfl⟩ := hcr
      exact ⟨⟨[], ['\r', '\n']⟩, by rw [List.singleton_append, splitLines]⟩
    · obtain ⟨l, hl⟩ := ih hfree
      refine ⟨⟨c :: l.content, l.ending⟩, ?_⟩
      rw [List.cons_append, splitLines, hl, if_neg (by rw [hc]; exact Bool.false_ne_true)]
      rintro u rfl h
      cases t with
      | nil =>
        rcases hs with rfl | rfl
        · exact hcr ⟨rfl, rfl, rfl⟩
        · cases h
      | cons d t =>
        obtain ⟨rfl, -⟩ := List.cons.inj h
        exact absurd (hfeed.symm.trans (free_cons.1 hfree).1) (by decide)

theorem exists_singleton (hfeed : stops '\n' = true) (h : OnOneLine stops s) :
    ∃ l, closedLines stops s = [l] := by
  obtain ⟨t, ht, hs⟩ := h
  have hline : ∃ l, splitLines stops (s ++ ['\n']) = l :: splitLines stops [] := by
    rcases hs with rfl | rfl
    · exact exists_line hfeed ht (.inl rfl)
    · rw [List.append_assoc]
      exact exists_line hfeed ht (.inr rfl)
  obtain ⟨l, hl⟩ := hline
  exact ⟨l, by rw [closedLines, hl, splitLines]; rfl⟩

theorem length_closedLines (hfeed : stops '\n' = true) :
    (closedLines stops s).length = 1 ↔ OnOneLine stops s := by
  constructor
  · intro h
    obtain ⟨l, hl⟩ := List.length_eq_one_iff.1 h
    exact onOneLine_of_singleton hfeed hl
  · intro h
    obtain ⟨l, hl⟩ := exists_singleton hfeed h
    rw [hl, List.length_singleton]

/-- The one line of a text is the text. -/
theorem closedLines_text (hfeed : stops '\n' = true) (h : OnOneLine stops s) :
    (closedLines stops s).map Line.text = [s ++ ['\n']] := by
  obtain ⟨l, hl⟩ := exists_singleton hfeed h
  have htext := flatMap_text_closedLines (s := s) hfeed
  rw [hl, List.flatMap_singleton] at htext
  rw [hl, List.map_singleton, htext]

section Pieces

/-- Nothing is behind the last feed, and ahead of it the lines are those of each text in turn. -/
theorem splitLines_pieces (hfeed : stops '\n' = true) (pieces : List (List Char)) :
    splitLines stops (pieces.flatMap (· ++ ['\n'])) =
      pieces.flatMap (closedLines stops) ++ [⟨[], []⟩] := by
  induction pieces with
  | nil => rfl
  | cons s pieces ih =>
    rw [List.flatMap_cons, List.flatMap_cons, List.append_assoc, List.singleton_append,
      splitLines_append_feed hfeed, ih, List.append_assoc]

theorem length_le_pieces (hfeed : stops '\n' = true) (pieces : List (List Char)) :
    pieces.length ≤ (pieces.flatMap (closedLines stops)).length := by
  induction pieces with
  | nil => exact Nat.le_refl 0
  | cons s pieces ih =>
    have hs := List.length_pos_iff.2 (closedLines_ne_nil (s := s) hfeed)
    rw [List.flatMap_cons, List.length_append, List.length_cons]
    omega

/-- There are no more lines than texts exactly if each text is one line. -/
theorem length_pieces_iff (hfeed : stops '\n' = true) (pieces : List (List Char)) :
    (pieces.flatMap (closedLines stops)).length = pieces.length ↔
      ∀ s ∈ pieces, OnOneLine stops s := by
  induction pieces with
  | nil => exact iff_of_true rfl (List.forall_mem_nil _)
  | cons s pieces ih =>
    have hs := List.length_pos_iff.2 (closedLines_ne_nil (s := s) hfeed)
    have hle := length_le_pieces hfeed pieces
    rw [List.forall_mem_cons, ← ih, ← length_closedLines hfeed, List.flatMap_cons,
      List.length_append, List.length_cons]
    omega

theorem text_pieces (hfeed : stops '\n' = true) (h : ∀ s ∈ pieces, OnOneLine stops s) :
    (pieces.flatMap (closedLines stops)).map Line.text = pieces.map (· ++ ['\n']) := by
  induction pieces with
  | nil => rfl
  | cons s pieces ih =>
    obtain ⟨hs, hpieces⟩ := List.forall_mem_cons.1 h
    rw [List.flatMap_cons, List.map_append, closedLines_text hfeed hs, ih hpieces, List.map_cons,
      List.singleton_append]

end Pieces

end AnalyzerBridge.Text
