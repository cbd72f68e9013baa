import AnalyzerBridge.Editor.Document

/-! Places as the language-server protocol has them, against the places where a document finds them.
The two agree as long as no break that only Unicode knows comes before the place. -/
namespace AnalyzerBridge

namespace Text

/-- How many characters come before a place of the protocol: so many lines, each with its break, and
then characters of the next line's content with so many units. There is none if the text has no such
line, if the content ends before, or if a character is torn. -/
def place? : List Char → Nat → Nat → Option Nat
  | _, 0, 0 => some 0
  | [], _, _ => none
  | '\r' :: '\n' :: s, line + 1, column => (place? s line column).map (· + 2)
  | c :: s, line + 1, column =>
    if isProtocolBreak c then (place? s line column).map (· + 1)
    else (place? s (line + 1) column).map (· + 1)
  | c :: s, 0, column + 1 =>
    if isProtocolBreak c || column + 1 < charUnits c then none
    else (place? s 0 (column + 1 - charUnits c)).map (· + 1)

/-- A break of Unicode that is none of the protocol. -/
def isForeignBreak (c : Char) : Bool :=
  isUnicodeBreak c && !isProtocolBreak c

/-- No character before the last of the first `n` is a break that only Unicode knows. -/
def Plain (s : List Char) (n : Nat) : Prop :=
  ∀ c ∈ s.take (n - 1), isForeignBreak c = false

instance (s : List Char) (n : Nat) : Decidable (Plain s n) :=
  List.decidableBAll (fun c => isForeignBreak c = false) (s.take (n - 1))

/-- How many characters of some lines come before a place that is counted in these lines. -/
def countIn : List Line → Nat → Nat → Nat
  | [], _, _ => 0
  | l :: _, 0, column => charsWithin column l.text
  | l :: ls, line + 1, column => l.text.length + countIn ls line column

variable {c : Char} {s : List Char} {line line' column column' n n' k m : Nat}

theorem Line.text_cons (l : Line) : Line.text ⟨c :: l.content, l.ending⟩ = c :: l.text := rfl

theorem isUnicodeBreak_of_protocol (h : isProtocolBreak c = true) : isUnicodeBreak c = true := by
  simp only [isProtocolBreak, Bool.or_eq_true, beq_iff_eq] at h
  rcases h with rfl | rfl <;> rfl

theorem plain_zero (s : List Char) : Plain s 0 := by
  intro c hc
  cases hc

theorem plain_cons (hc : isForeignBreak c = false) : Plain (c :: s) (n + 1) ↔ Plain s n := by
  cases n with
  | zero => exact iff_of_true (by simp [Plain]) (plain_zero s)
  | succ n => simp [Plain, hc]

/-- A foreign break may only be the last. -/
theorem plain_foreign (hc : isForeignBreak c = true) : Plain (c :: s) (n + 1) ↔ n = 0 := by
  cases n with
  | zero => simp [Plain]
  | succ n => simp [Plain, hc]

theorem isUnicodeBreak_eq (h : isProtocolBreak c = false) :
    isUnicodeBreak c = isForeignBreak c := by
  simp [isForeignBreak, h]

theorem isForeignBreak_of_protocol (h : isProtocolBreak c = true) : isForeignBreak c = false := by
  simp [isForeignBreak, h]

theorem charUnits_of_break (h : isUnicodeBreak c = true) : charUnits c = 1 := by
  simp only [isUnicodeBreak, Bool.or_eq_true, Bool.and_eq_true, decide_eq_true_eq, beq_iff_eq] at h
  have hc : c.toNat < 0x10000 := by omega
  simp [charUnits, hc]

@[simp] theorem charsWithin_zero (s : List Char) : charsWithin 0 s = 0 := by
  cases s with
  | nil => rfl
  | cons c s => exact if_pos (charUnits_pos c)

theorem charsWithin_mono (h : k ≤ m) (s : List Char) : charsWithin k s ≤ charsWithin m s := by
  induction s generalizing k m with
  | nil => simp
  | cons c s ih =>
    rw [charsWithin, charsWithin]
    by_cases hk : k < charUnits c
    · simp [hk]
    · have hm : ¬ m < charUnits c := by omega
      rw [if_neg hk, if_neg hm]
      have hrest := ih (k := k - charUnits c) (m := m - charUnits c) (by omega)
      omega

theorem max_charsWithin (k m : Nat) (s : List Char) :
    max (charsWithin k s) (charsWithin m s) = charsWithin (max k m) s := by
  rcases Nat.le_total k m with h | h
  · rw [Nat.max_eq_right h, Nat.max_eq_right (charsWithin_mono h s)]
  · rw [Nat.max_eq_left h, Nat.max_eq_left (charsWithin_mono h s)]

theorem countIn_mono (h : k ≤ m) (ls : List Line) (line : Nat) :
    countIn ls line k ≤ countIn ls line m := by
  induction ls generalizing line with
  | nil => exact Nat.le_refl _
  | cons l ls ih =>
    cases line with
    | zero => exact charsWithin_mono h l.text
    | succ line => exact Nat.add_le_add_left (ih line) _

/-- Every place of a line comes before those of the next. -/
theorem countIn_le_succ (ls : List Line) (line k m : Nat) :
    countIn ls line k ≤ countIn ls (line + 1) m := by
  induction ls generalizing line with
  | nil => exact Nat.le_refl _
  | cons l ls ih =>
    cases line with
    | zero => exact Nat.le_trans (charsWithin_le_length k l.text) (Nat.le_add_right _ _)
    | succ line => exact Nat.add_le_add_left (ih line) _

theorem countIn_le_of_lt {ls : List Line} (h : line < line') :
    countIn ls line k ≤ countIn ls line' m := by
  induction h with
  | refl => exact countIn_le_succ ls line k m
  | step _ ih => exact Nat.le_trans ih (countIn_le_succ _ _ _ _)

/-- No place is past the end. -/
theorem countIn_le_length (ls : List Line) (line column : Nat) :
    countIn ls line column ≤ (ls.flatMap Line.text).length := by
  induction ls generalizing line with
  | nil => exact Nat.le_refl _
  | cons l ls ih =>
    rw [List.flatMap_cons, List.length_append]
    cases line with
    | zero => exact Nat.le_trans (charsWithin_le_length column l.text) (Nat.le_add_right _ _)
    | succ line => exact Nat.add_le_add_left (ih line) _

theorem pos_of_map_add {o : Option Nat} (h : o.map (· + (k + 1)) = some n) : 0 < n := by
  obtain ⟨_, _, rfl⟩ := Option.map_eq_some_iff.1 h
  exact Nat.succ_pos _

/-- Only the start of a text has nothing before it. -/
theorem place?_pos (h : place? s line column = some n) (hp : 0 < line ∨ 0 < column) : 0 < n := by
  rw [place?.eq_def] at h
  split at h
  · omega
  · cases h
  · exact pos_of_map_add h
  · split at h <;> exact pos_of_map_add h
  · split at h
    · cases h
    · exact pos_of_map_add h

/-- A place on a later line is looked for behind the first character, or behind the two of a break. -/
theorem place?_cons_succ : place? (c :: s) (line + 1) column =
    if c = '\r' ∧ s.head? = some '\n' then (place? s.tail line column).map (· + 2)
    else if isProtocolBreak c then (place? s line column).map (· + 1)
    else (place? s (line + 1) column).map (· + 1) := by
  by_cases hcrlf : c = '\r' ∧ s.head? = some '\n'
  · obtain ⟨rfl, hs⟩ := hcrlf
    obtain ⟨t, rfl⟩ := List.head?_eq_some_iff.1 hs
    rw [place?, if_pos ⟨rfl, rfl⟩, List.tail_cons]
  · rw [place?, if_neg hcrlf]
    rintro t rfl rfl
    exact hcrlf ⟨rfl, rfl⟩

theorem place?_crlf_succ :
    place? ('\r' :: '\n' :: s) (line + 1) column = (place? s line column).map (· + 2) := by
  rw [place?_cons_succ, if_pos ⟨rfl, rfl⟩, List.tail_cons]

theorem place?_break_succ (hc : isProtocolBreak c = true)
    (hs : ∀ t, c = '\r' → s = '\n' :: t → False) :
    place? (c :: s) (line + 1) column = (place? s line column).map (· + 1) := by
  have hcrlf : ¬ (c = '\r' ∧ s.head? = some '\n') := by
    rintro ⟨hr, hn⟩
    obtain ⟨t, ht⟩ := List.head?_eq_some_iff.1 hn
    exact hs t hr ht
  rw [place?_cons_succ, if_neg hcrlf, if_pos hc]

theorem place?_char_succ (hc : isProtocolBreak c = false) :
    place? (c :: s) (line + 1) column = (place? s (line + 1) column).map (· + 1) := by
  have hcrlf : ¬ (c = '\r' ∧ s.head? = some '\n') := by
    rintro ⟨rfl, -⟩
    cases hc
  rw [place?_cons_succ, if_neg hcrlf, hc, if_neg Bool.false_ne_true]

theorem place?_char_zero (hc : isProtocolBreak c = false) (hk : charUnits c ≤ k + 1) :
    place? (c :: s) 0 (k + 1) = (place? s 0 (k + 1 - charUnits c)).map (· + 1) := by
  rw [place?, if_neg (by simp [hc, hk])]

/-- Later places have more before them. -/
theorem place?_mono (h : place? s line column = some n) (h' : place? s line' column' = some n')
    (hle : line < line' ∨ line = line' ∧ column ≤ column') : n ≤ n' := by
  fun_induction place? s line column generalizing n line' column' n' with
  | case1 => cases h; exact Nat.zero_le _
  | case2 => cases h
  | case3 s line column ih =>
    obtain ⟨n, hn, rfl⟩ := Option.map_eq_some_iff.1 h
    obtain ⟨line', rfl⟩ := Nat.exists_eq_add_one.2 (show 0 < line' by omega)
    rw [place?_crlf_succ] at h'
    obtain ⟨n', hn', rfl⟩ := Option.map_eq_some_iff.1 h'
    exact Nat.add_le_add_right (ih hn hn' (by omega)) 2
  | case4 c s line column hcrlf hbreak ih =>
    obtain ⟨n, hn, rfl⟩ := Option.map_eq_some_iff.1 h
    obtain ⟨line', rfl⟩ := Nat.exists_eq_add_one.2 (show 0 < line' by omega)
    rw [place?_break_succ hbreak hcrlf] at h'
    obtain ⟨n', hn', rfl⟩ := Option.map_eq_some_iff.1 h'
    exact Nat.add_le_add_right (ih hn hn' (by omega)) 1
  | case5 c s line column hcrlf hbreak ih =>
    obtain ⟨n, hn, rfl⟩ := Option.map_eq_some_iff.1 h
    obtain ⟨line', rfl⟩ := Nat.exists_eq_add_one.2 (show 0 < line' by omega)
    rw [place?_char_succ (Bool.not_eq_true _ ▸ hbreak)] at h'
    obtain ⟨n', hn', rfl⟩ := Option.map_eq_some_iff.1 h'
    exact Nat.add_le_add_right (ih hn hn' (by omega)) 1
  | case6 => cases h
  | case7 c s column hcol ih =>
    obtain ⟨n, hn, rfl⟩ := Option.map_eq_some_iff.1 h
    simp only [Bool.or_eq_true, decide_eq_true_eq, not_or, Nat.not_lt, Bool.not_eq_true] at hcol
    obtain ⟨hc, hunits⟩ := hcol
    cases line' with
    | succ line' =>
      rw [place?_char_succ hc] at h'
      obtain ⟨n', hn', rfl⟩ := Option.map_eq_some_iff.1 h'
      exact Nat.add_le_add_right (ih hn hn' (by omega)) 1
    | zero =>
      obtain ⟨column', rfl⟩ := Nat.exists_eq_add_one.2 (show 0 < column' by omega)
      rw [place?_char_zero hc (by omega)] at h'
      obtain ⟨n', hn', rfl⟩ := Option.map_eq_some_iff.1 h'
      exact Nat.add_le_add_right (ih hn hn' (by omega)) 1

end Text

namespace Document

open Text

variable {c : Char} {s text : List Char} {line column n k m : Nat}

theorem countIn_of_drop_nil {ls : List Line} (h : ls.drop line = []) :
    countIn ls line column = (ls.flatMap Line.text).length := by
  induction ls generalizing line with
  | nil => rfl
  | cons l ls ih =>
    cases line with
    | zero => cases h
    | succ line => rw [countIn, ih h, List.flatMap_cons, List.length_append]

theorem countIn_of_drop_cons {l : Line} {ls rest : List Line} (h : ls.drop line = l :: rest) :
    countIn ls line column =
      ((ls.take line).flatMap Line.text).length + charsWithin column l.text := by
  induction ls generalizing line with
  | nil =>
    rw [List.drop_nil] at h
    cases h
  | cons l' ls ih =>
    cases line with
    | zero =>
      cases h
      exact (Nat.zero_add _).symm
    | succ line =>
      rw [countIn, ih h, List.take_succ_cons, List.flatMap_cons, List.length_append, Nat.add_assoc]

theorem indexIn_eq (text : List Char) (p : Position) :
    indexIn text p = countIn (linesOf text) p.line.toNat p.character.toNat := by
  rw [indexIn]
  cases hdrop : (linesOf text).drop p.line.toNat with
  | nil => rw [countIn_of_drop_nil hdrop, linesOf, flatMap_text_splitLines]
  | cons l rest => rw [countIn_of_drop_cons hdrop]

theorem indexIn_le_length (text : List Char) (p : Position) : indexIn text p ≤ text.length := by
  have h := countIn_le_length (linesOf text) p.line.toNat p.character.toNat
  rwa [← indexIn_eq, linesOf, flatMap_text_splitLines] at h

theorem linesOf_crlf : linesOf ('\r' :: '\n' :: s) = ⟨[], ['\r', '\n']⟩ :: linesOf s := by
  rw [linesOf, splitLines, linesOf]

theorem linesOf_break (hc : isUnicodeBreak c = true) (hs : ∀ t, c = '\r' → s = '\n' :: t → False) :
    linesOf (c :: s) = ⟨[], [c]⟩ :: linesOf s := by
  rw [linesOf, splitLines, if_pos hc, linesOf]
  exact hs

/-- A character that is no break goes to the front of the first line. -/
theorem linesOf_char (hc : isUnicodeBreak c = false) : ∃ l ls, linesOf s = l :: ls ∧
    linesOf (c :: s) = ⟨c :: l.content, l.ending⟩ :: ls := by
  have hne : linesOf s ≠ [] := splitLines_ne_nil
  obtain ⟨l, ls, hls⟩ := List.exists_cons_of_ne_nil hne
  refine ⟨l, ls, hls, ?_⟩
  rw [linesOf] at hls
  rw [linesOf, splitLines, hls]
  · simp [hc]
  · rintro t rfl rfl
    cases hc

section
variable (hc : isUnicodeBreak c = true) (hs : ∀ t, c = '\r' → s = '\n' :: t → False)
include hc hs

theorem countIn_break_succ :
    countIn (linesOf (c :: s)) (line + 1) k = countIn (linesOf s) line k + 1 := by
  rw [linesOf_break hc hs, countIn]
  exact Nat.add_comm _ _

/-- On the line of a break nothing is counted but the break. -/
theorem countIn_break_zero : countIn (linesOf (c :: s)) 0 (k + 1) = 1 := by
  rw [linesOf_break hc hs, countIn, Line.text, List.nil_append, charsWithin, charUnits_of_break hc,
    if_neg (by omega), charsWithin_nil]

end

theorem countIn_crlf_succ :
    countIn (linesOf ('\r' :: '\n' :: s)) (line + 1) k = countIn (linesOf s) line k + 2 := by
  rw [linesOf_crlf, countIn]
  exact Nat.add_comm _ _

theorem countIn_crlf_zero : countIn (linesOf ('\r' :: '\n' :: s)) 0 k ≤ 2 := by
  rw [linesOf_crlf, countIn]
  exact charsWithin_le_length k _

section
variable (hc : isUnicodeBreak c = false)
include hc

theorem countIn_char_succ :
    countIn (linesOf (c :: s)) (line + 1) k = countIn (linesOf s) (line + 1) k + 1 := by
  obtain ⟨l, ls, hls, hcons⟩ := linesOf_char (s := s) hc
  rw [hls, hcons, countIn, countIn, Line.text_cons, List.length_cons]
  omega

theorem countIn_char_zero : countIn (linesOf (c :: s)) 0 k =
    if k < charUnits c then 0 else countIn (linesOf s) 0 (k - charUnits c) + 1 := by
  obtain ⟨l, ls, hls, hcons⟩ := linesOf_char (s := s) hc
  rw [hls, hcons, countIn, countIn, Line.text_cons, charsWithin, Nat.add_comm 1]

end

@[simp] theorem countIn_start (ls : List Line) : countIn ls 0 0 = 0 := by
  cases ls with
  | nil => rfl
  | cons l ls => exact charsWithin_zero _

/-- A character moves a place by no more than itself. -/
theorem countIn_cons_le (hs : ∀ t, c = '\r' → s = '\n' :: t → False) :
    countIn (linesOf (c :: s)) line k ≤ countIn (linesOf s) line k + 1 := by
  cases hc : isUnicodeBreak c with
  | true =>
    cases line with
    | zero =>
      cases k with
      | zero => simp
      | succ k => rw [countIn_break_zero hc hs]; omega
    | succ line =>
      rw [countIn_break_succ hc hs]
      exact Nat.add_le_add_right (countIn_le_succ _ _ _ _) 1
  | false =>
    cases line with
    | zero =>
      rw [countIn_char_zero hc]
      split
      · omega
      · exact Nat.add_le_add_right (countIn_mono (by omega) _ _) 1
    | succ line => exact Nat.le_of_eq (countIn_char_succ hc)

/-- A document counts fewer characters before a place than the protocol before the same place of the
next line. -/
theorem countIn_pred_lt (h : place? s (line + 1) column = some n) :
    countIn (linesOf s) line column < n := by
  generalize hline : line + 1 = next at h
  fun_induction place? s next column generalizing line n with
  | case1 => omega
  | case2 => cases h
  | case3 s next column ih =>
    obtain ⟨n, hn, rfl⟩ := Option.map_eq_some_iff.1 h
    obtain rfl : line = next := by omega
    cases line with
    | succ line =>
      rw [countIn_crlf_succ]
      exact Nat.add_lt_add_right (ih rfl hn) 2
    | zero =>
      cases column with
      | zero => simp
      | succ k =>
        have hpos := place?_pos hn (.inr (Nat.succ_pos k))
        have hle := countIn_crlf_zero (s := s) (k := k + 1)
        omega
  | case4 c s next column hcrlf hbreak ih =>
    obtain ⟨n, hn, rfl⟩ := Option.map_eq_some_iff.1 h
    obtain rfl : line = next := by omega
    have hc := isUnicodeBreak_of_protocol hbreak
    cases line with
    | succ line =>
      rw [countIn_break_succ hc hcrlf]
      exact Nat.add_lt_add_right (ih rfl hn) 1
    | zero =>
      cases column with
      | zero => simp
      | succ k =>
        have hpos := place?_pos hn (.inr (Nat.succ_pos k))
        rw [countIn_break_zero hc hcrlf]
        omega
  | case5 c s next column hcrlf hbreak ih =>
    obtain ⟨n, hn, rfl⟩ := Option.map_eq_some_iff.1 h
    exact Nat.lt_of_le_of_lt (countIn_cons_le hcrlf) (Nat.add_lt_add_right (ih hline hn) 1)
  | case6 => omega
  | case7 => omega

/-- A document finds a place of the protocol exactly if no foreign break comes before it, but for
the character right before it. -/
theorem countIn_eq_iff (h : place? s line column = some n) :
    countIn (linesOf s) line column = n ↔ Plain s n := by
  fun_induction place? s line column generalizing n with
  | case1 s =>
    cases h
    exact iff_of_true (countIn_start _) (plain_zero s)
  | case2 => cases h
  | case3 s line column ih =>
    obtain ⟨n, hn, rfl⟩ := Option.map_eq_some_iff.1 h
    rw [countIn_crlf_succ, plain_cons rfl, plain_cons rfl, ← ih hn]
    exact Nat.add_right_cancel_iff
  | case4 c s line column hcrlf hbreak ih =>
    obtain ⟨n, hn, rfl⟩ := Option.map_eq_some_iff.1 h
    rw [countIn_break_succ (isUnicodeBreak_of_protocol hbreak) hcrlf,
      plain_cons (isForeignBreak_of_protocol hbreak), ← ih hn]
    exact Nat.add_right_cancel_iff
  | case5 c s line column hcrlf hbreak ih =>
    obtain ⟨n, hn, rfl⟩ := Option.map_eq_some_iff.1 h
    have hforeign := isUnicodeBreak_eq (Bool.not_eq_true _ ▸ hbreak)
    cases hc : isForeignBreak c with
    | false =>
      rw [countIn_char_succ (hforeign.trans hc), plain_cons hc, ← ih hn]
      exact Nat.add_right_cancel_iff
    | true =>
      -- The document takes the next line for this one, and so comes out too early.
      have hpos := place?_pos hn (.inl (Nat.succ_pos line))
      have hlt := countIn_pred_lt hn
      rw [countIn_break_succ (hforeign.trans hc) hcrlf, plain_foreign hc]
      omega
  | case6 => cases h
  | case7 c s column hcol ih =>
    obtain ⟨n, hn, rfl⟩ := Option.map_eq_some_iff.1 h
    simp only [Bool.or_eq_true, decide_eq_true_eq, not_or, Nat.not_lt, Bool.not_eq_true] at hcol
    have hforeign := isUnicodeBreak_eq hcol.1
    cases hc : isForeignBreak c with
    | false =>
      rw [countIn_char_zero (hforeign.trans hc), if_neg (by omega), plain_cons hc, ← ih hn]
      exact Nat.add_right_cancel_iff
    | true =>
      have hcrlf : ∀ t, c = '\r' → s = '\n' :: t → False := by
        rintro t rfl rfl
        cases hc
      rw [countIn_break_zero (hforeign.trans hc) hcrlf, plain_foreign hc]
      omega

end Document
end AnalyzerBridge
