import AnalyzerBridge.Proofs.Json.Record

/-! Reading a longer text. A reader that stops before the end of a text gives the same in every text
that goes on from there, and one that stops at a quote or a bracket of its own need not even stop
before the end. -/
namespace AnalyzerBridge.Json

variable {α : Type} {s t w rest bound more : List Char} {c : Char} {atEnd : Fault} {first : Bool}

/-- A reader needs something to read, and if it leaves something, it reads alike what goes on behind
it. -/
structure Extends (read : List Char → Except Fault (α × List Char)) : Prop where
  nil : ∀ x, read [] ≠ .ok x
  append : ∀ s a rest t, read s = .ok (a, rest) → rest ≠ [] → read (s ++ t) = .ok (a, rest ++ t)

/-- A reader that ends at a quote or a bracket of its own reads alike whatever goes on behind. -/
structure Closes (read : List Char → Except Fault (α × List Char)) : Prop where
  nil : ∀ x, read [] ≠ .ok x
  append : ∀ s a rest t, read s = .ok (a, rest) → read (s ++ t) = .ok (a, rest ++ t)

theorem Closes.extends {read : List Char → Except Fault (α × List Char)} (h : Closes read) :
    Extends read :=
  ⟨h.nil, fun s a rest t hread _ => h.append s a rest t hread⟩

theorem skipSpace_append (h : skipSpace s = c :: rest) : skipSpace (s ++ t) = c :: (rest ++ t) := by
  rw [skipSpace, List.dropWhile_append, ← skipSpace, h]
  rfl

theorem scanWord_append (h : scanWord w s = .ok rest) : scanWord w (s ++ t) = .ok (rest ++ t) := by
  induction w generalizing s with
  | nil =>
    cases h
    rfl
  | cons e w ih =>
    cases s with
    | nil => cases h
    | cons c s =>
      rw [scanWord] at h
      split at h
      · rename_i hc
        rw [List.cons_append, scanWord, if_pos hc]
        exact ih h
      · cases h

section Texts

variable {state : TextState} {done x : List Char}

theorem readTextFrom_append (h : readTextFrom state done s = .ok (x, rest)) :
    readTextFrom state done (s ++ t) = .ok (x, rest ++ t) := by
  fun_induction readTextFrom state done s <;> simp_all [readTextFrom]

theorem readText_append {text : String} (h : readText s = .ok (text, rest)) :
    readText (s ++ t) = .ok (text, rest ++ t) := by
  obtain ⟨⟨x, s'⟩, hx, h⟩ := Except.bind_eq_ok.1 h
  cases h
  rw [readText, readTextFrom_append hx]
  rfl

theorem skipTextFrom_append (h : skipTextFrom state s = .ok rest) :
    skipTextFrom state (s ++ t) = .ok (rest ++ t) := by
  fun_induction skipTextFrom state s <;> simp_all [skipTextFrom]

end Texts

section Numbers

variable {ds : List Char}

theorem scanDigits_eq_ok : scanDigits atEnd s = .ok (ds, rest) ↔
    ds ≠ [] ∧ s.takeWhile Char.isDigit = ds ∧ s.dropWhile Char.isDigit = rest := by
  rw [scanDigits.eq_def]
  split
  · simp_all
  · rename_i htake
    rw [htake]
    simp only [reduceCtorEq, false_iff]
    rintro ⟨hds, rfl, _⟩
    exact hds rfl
  · rename_i hno _
    simp only [Except.ok.injEq, Prod.mk.injEq]
    refine ⟨?_, And.right⟩
    rintro ⟨rfl, hdrop⟩
    exact ⟨hno, rfl, hdrop⟩

theorem scanDigits_append (h : scanDigits atEnd s = .ok (ds, rest)) (hr : rest ≠ []) :
    scanDigits atEnd (s ++ t) = .ok (ds, rest ++ t) := by
  obtain ⟨hds, htake, hdrop⟩ := scanDigits_eq_ok.1 h
  have hlength : (s.takeWhile Char.isDigit).length ≠ s.length := by
    intro heq
    have hsplit := congrArg List.length (List.takeWhile_append_dropWhile (p := Char.isDigit) (l := s))
    rw [List.length_append, heq, hdrop] at hsplit
    have hpos := List.length_pos_iff.2 hr
    omega
  refine scanDigits_eq_ok.2 ⟨hds, ?_, ?_⟩
  · rw [List.takeWhile_append, if_neg hlength, htake]
  · rw [List.dropWhile_append, hdrop, if_neg (by simpa using hr)]

theorem scanWhole_append (h : scanWhole atEnd s = .ok (ds, rest)) (hr : rest ≠ []) :
    scanWhole atEnd (s ++ t) = .ok (ds, rest ++ t) := by
  rw [scanWhole.eq_def] at h
  split at h
  · rename_i c s
    rw [List.cons_append, List.cons_append, scanWhole]
    split at h
    · cases h
    · rename_i hc
      cases h
      rw [if_neg hc]
      rfl
  · rename_i hno
    have hdigits := scanDigits_append (t := t) h hr
    rw [scanWhole.eq_def]
    split
    · -- a zero alone leaves nothing
      rename_i c s' heq
      cases s with
      | nil => cases h
      | cons d s =>
        obtain ⟨rfl, heq⟩ := List.cons.inj heq
        cases s with
        | nil =>
          obtain ⟨_, _, hdrop⟩ := scanDigits_eq_ok.1 h
          exact absurd hdrop.symm hr
        | cons e s => exact absurd rfl (hno e s)
    · exact hdigits

theorem scanExponent_append {e : Bool × List Char} (h : scanExponent atEnd s = .ok (e, rest))
    (hr : rest ≠ []) : scanExponent atEnd (s ++ t) = .ok (e, rest ++ t) := by
  rw [scanExponent.eq_def] at h
  split at h
  · obtain ⟨⟨ds, s'⟩, hds, h⟩ := Except.bind_eq_ok.1 h
    cases h
    simp [scanExponent, scanDigits_append hds hr, bind, Except.bind]
  · obtain ⟨⟨ds, s'⟩, hds, h⟩ := Except.bind_eq_ok.1 h
    cases h
    simp [scanExponent, scanDigits_append hds hr, bind, Except.bind]
  · rename_i hminus hplus
    obtain ⟨⟨ds, s'⟩, hds, h⟩ := Except.bind_eq_ok.1 h
    cases h
    cases s with
    | nil => cases hds
    | cons c s =>
      have hdigits := scanDigits_append (t := t) hds hr
      rw [List.cons_append] at hdigits ⊢
      rw [scanExponent]
      · rw [hdigits]
        rfl
      · rintro s' heq
        exact hminus s (by rw [(List.cons.inj heq).1])
      · rintro s' heq
        exact hplus s (by rw [(List.cons.inj heq).1])

/-- The fraction of a number, if a point comes first. -/
def scanFraction (atEnd : Fault) : List Char → Except Fault (Option (List Char) × List Char)
  | '.' :: s => do let (ds, s) ← scanDigits atEnd s; .ok (some ds, s)
  | s => .ok (none, s)

/-- The end of a number, which may have an exponent. -/
def scanRest (atEnd : Fault) (whole : List Char) (fraction : Option (List Char)) :
    List Char → Except Fault (Spelling × List Char)
  | [] => .ok (⟨whole, fraction, none⟩, [])
  | c :: s =>
    if c = 'e' ∨ c = 'E' then do
      let (exponent, s) ← scanExponent atEnd s
      .ok (⟨whole, fraction, some exponent⟩, s)
    else .ok (⟨whole, fraction, none⟩, c :: s)

theorem scanSpelling_eq : scanSpelling atEnd s = scanWhole atEnd s >>= fun x =>
    scanFraction atEnd x.2 >>= fun y => scanRest atEnd x.1 y.1 y.2 := by
  rw [scanSpelling]
  congr 1
  funext x
  obtain ⟨whole, s⟩ := x
  dsimp only
  split
  · rename_i s
    rw [scanFraction]
    cases scanDigits atEnd s with
    | error => rfl
    | ok y =>
      obtain ⟨ds, s⟩ := y
      cases s <;> rfl
  · rename_i hno
    rw [scanFraction]
    · cases s <;> rfl
    · exact hno

theorem scanFraction_append {f : Option (List Char)} (h : scanFraction atEnd s = .ok (f, rest))
    (hr : rest ≠ []) : scanFraction atEnd (s ++ t) = .ok (f, rest ++ t) := by
  rw [scanFraction.eq_def] at h
  split at h
  · obtain ⟨⟨ds, s'⟩, hds, h⟩ := Except.bind_eq_ok.1 h
    cases h
    rw [List.cons_append, scanFraction, scanDigits_append hds hr]
    rfl
  · rename_i hno
    cases h
    cases s with
    | nil => exact absurd rfl hr
    | cons c s =>
      rw [List.cons_append, scanFraction]
      rintro s' heq
      exact hno s (by rw [(List.cons.inj heq).1])

theorem scanRest_append {whole : List Char} {f : Option (List Char)} {p : Spelling}
    (h : scanRest atEnd whole f s = .ok (p, rest)) (hr : rest ≠ []) :
    scanRest atEnd whole f (s ++ t) = .ok (p, rest ++ t) := by
  cases s with
  | nil =>
    cases h
    exact absurd rfl hr
  | cons c s =>
    rw [scanRest] at h
    rw [List.cons_append, scanRest]
    split at h
    · rename_i hc
      obtain ⟨⟨e, s'⟩, he, h⟩ := Except.bind_eq_ok.1 h
      cases h
      rw [if_pos hc, scanExponent_append he hr]
      rfl
    · rename_i hc
      cases h
      rw [if_neg hc]
      rfl

theorem scanSpelling_append {p : Spelling} (h : scanSpelling atEnd s = .ok (p, rest))
    (hr : rest ≠ []) : scanSpelling atEnd (s ++ t) = .ok (p, rest ++ t) := by
  rw [scanSpelling_eq] at h ⊢
  obtain ⟨⟨whole, s₁⟩, hwhole, h⟩ := Except.bind_eq_ok.1 h
  obtain ⟨⟨fraction, s₂⟩, hfraction, h⟩ := Except.bind_eq_ok.1 h
  have h₂ : s₂ ≠ [] := by
    rintro rfl
    cases h
    exact hr rfl
  have h₁ : s₁ ≠ [] := by
    rintro rfl
    cases hfraction
    exact h₂ rfl
  simp [scanWhole_append hwhole h₁, scanFraction_append hfraction h₂, scanRest_append h hr, bind,
    Except.bind]

theorem readNumber_append {negative : Bool} {n : Number}
    (h : readNumber negative s = .ok (n, rest)) (hr : rest ≠ []) :
    readNumber negative (s ++ t) = .ok (n, rest ++ t) := by
  obtain ⟨⟨p, s'⟩, hp, h⟩ := Except.bind_eq_ok.1 h
  obtain ⟨n, hn, h⟩ := Except.bind_eq_ok.1 h
  cases h
  simp [readNumber, scanSpelling_append hp hr, hn, bind, Except.bind]

theorem skipNumber_append (h : skipNumber s = .ok rest) (hr : rest ≠ []) :
    skipNumber (s ++ t) = .ok (rest ++ t) := by
  obtain ⟨⟨p, s'⟩, hp, h⟩ := Except.bind_eq_ok.1 h
  cases h
  simp [skipNumber, scanSpelling_append hp hr, bind, Except.bind]

end Numbers

section Separators

/-- The same in a longer text. -/
def Next.append : Next → List Char → Next
  | .entry s, t => .entry (s ++ t)
  | .close s, t => .close (s ++ t)

theorem nextItem_append {x : Next} (h : nextItem first s = .ok x) :
    nextItem first (s ++ t) = .ok (x.append t) := by
  rw [nextItem] at h
  split at h
  · cases h
  · rename_i hs
    cases h
    rw [nextItem, skipSpace_append hs]
    rfl
  · rename_i c s hclose hs
    cases first with
    | true =>
      cases h
      simp [nextItem, skipSpace_append hs, Next.append]
    | false =>
      by_cases hc : c = ','
      · subst hc
        simp only [Bool.false_eq_true, if_false, if_true] at h
        split at h
        · cases h
        · cases h
        · rename_i hopen hclose
          cases h
          obtain ⟨d, s, hd⟩ := List.exists_cons_of_ne_nil hopen
          have hclose : d ≠ ']' := fun hc => hclose s (by rw [hd, hc])
          simp [nextItem, skipSpace_append hs, skipSpace_append hd, hd, hclose, Next.append]
      · simp [hc] at h

theorem nextMember_append {x : Next} (h : nextMember first s = .ok x) :
    nextMember first (s ++ t) = .ok (x.append t) := by
  rw [nextMember] at h
  split at h
  · cases h
  · rename_i hs
    cases h
    rw [nextMember, skipSpace_append hs]
    rfl
  · rename_i c s hclose hs
    cases first with
    | true =>
      by_cases hc : c = '"'
      · subst hc
        cases h
        simp [nextMember, skipSpace_append hs, Next.append]
      · simp [hc] at h
    | false =>
      by_cases hc : c = ','
      · subst hc
        simp only [Bool.false_eq_true, if_false, if_true] at h
        split at h
        · cases h
        · rename_i hquote
          cases h
          simp [nextMember, skipSpace_append hs, skipSpace_append hquote, Next.append]
        · cases h
        · cases h
      · simp [hc] at h

theorem readColon_append (h : readColon s = .ok rest) : readColon (s ++ t) = .ok (rest ++ t) := by
  rw [readColon] at h
  split at h
  · cases h
  · rename_i hs
    cases h
    rw [readColon, skipSpace_append hs]
    rfl
  · cases h

theorem readName_append {name : String} (h : readName s = .ok (name, rest)) :
    readName (s ++ t) = .ok (name, rest ++ t) := by
  obtain ⟨⟨name, s'⟩, hname, h⟩ := Except.bind_eq_ok.1 h
  obtain ⟨s', hcolon, h⟩ := Except.bind_eq_ok.1 h
  cases h
  simp [readName, readText_append hname, readColon_append hcolon, bind, Except.bind]

theorem closeList_append (h : closeList s = .ok rest) : closeList (s ++ t) = .ok (rest ++ t) := by
  rw [closeList] at h
  split at h
  · cases h
  · rename_i hs
    cases h
    rw [closeList, skipSpace_append hs]
    rfl
  · split at h <;> cases h
  · cases h

end Separators

section Items

variable {item : List Char → Except Fault (α × List Char)}

/-- The items of a list are read alike, with any greater bound. -/
theorem readItems_append {as done : List α} (hi : Extends item)
    (h : readItems item bound first done s = .ok (as, rest)) :
    readItems item (bound ++ more) first done (s ++ t) = .ok (as, rest ++ t) := by
  induction bound generalizing first done s with
  | nil => cases h
  | cons c bound ih =>
    obtain ⟨next, hnext, h⟩ := Except.bind_eq_ok.1 h
    rw [List.cons_append, readItems, nextItem_append hnext]
    cases next with
    | close s =>
      cases h
      rfl
    | entry s =>
      obtain ⟨⟨a, s'⟩, ha, h⟩ := Except.bind_eq_ok.1 h
      have hs : s' ≠ [] := by
        rintro rfl
        cases bound <;> cases h
      have hrest := ih h
      simp [Next.append, hi.append _ _ _ t ha hs, hrest, bind, Except.bind]

/-- The members of an object are read alike, with any greater bound. -/
theorem readMembers_append {ms done : List (String × α)} (hi : Extends item)
    (h : readMembers item bound first done s = .ok (ms, rest)) :
    readMembers item (bound ++ more) first done (s ++ t) = .ok (ms, rest ++ t) := by
  induction bound generalizing first done s with
  | nil => cases h
  | cons c bound ih =>
    obtain ⟨next, hnext, h⟩ := Except.bind_eq_ok.1 h
    rw [List.cons_append, readMembers, nextMember_append hnext]
    cases next with
    | close s =>
      cases h
      rfl
    | entry s =>
      obtain ⟨⟨name, s'⟩, hname, h⟩ := Except.bind_eq_ok.1 h
      obtain ⟨⟨a, s''⟩, ha, h⟩ := Except.bind_eq_ok.1 h
      have hs : s'' ≠ [] := by
        rintro rfl
        cases bound <;> cases h
      have hrest := ih h
      simp [Next.append, readName_append hname, hi.append _ _ _ t ha hs, hrest, bind, Except.bind]

end Items

section Values

variable {inner : Option (List Char → Except Fault (Json × List Char))}

theorem extends_readValue (hi : ∀ item, inner = some item → Extends item) :
    Extends (readValue inner) where
  nil x h := by cases h
  append s v rest t h hr := by
    rw [readValue] at h
    split at h
    · cases h
    · rename_i hs
      obtain ⟨s', hw, h⟩ := Except.bind_eq_ok.1 h
      cases h
      simp only [readValue, skipSpace_append hs, scanWord_append hw, bind, Except.bind]
    · rename_i hs
      obtain ⟨s', hw, h⟩ := Except.bind_eq_ok.1 h
      cases h
      simp only [readValue, skipSpace_append hs, scanWord_append hw, bind, Except.bind]
    · rename_i hs
      obtain ⟨s', hw, h⟩ := Except.bind_eq_ok.1 h
      cases h
      simp only [readValue, skipSpace_append hs, scanWord_append hw, bind, Except.bind]
    · rename_i hs
      obtain ⟨⟨n, s'⟩, hn, h⟩ := Except.bind_eq_ok.1 h
      cases h
      rw [readValue, skipSpace_append hs]
      simp [readNumber_append hn hr, bind, Except.bind]
    · rename_i hs
      obtain ⟨⟨x, s'⟩, hx, h⟩ := Except.bind_eq_ok.1 h
      cases h
      rw [readValue, skipSpace_append hs]
      simp [readText_append hx, bind, Except.bind]
    · rename_i hs
      cases inner with
      | none => cases h
      | some item =>
        obtain ⟨⟨items, s'⟩, hitems, h⟩ := Except.bind_eq_ok.1 h
        cases h
        rw [readValue, skipSpace_append hs]
        simp [readItems_append (hi item rfl) hitems, bind, Except.bind]
    · rename_i hs
      cases inner with
      | none => cases h
      | some item =>
        obtain ⟨⟨members, s'⟩, hmembers, h⟩ := Except.bind_eq_ok.1 h
        cases h
        rw [readValue, skipSpace_append hs]
        simp [readMembers_append (hi item rfl) hmembers, bind, Except.bind]
    · rename_i c s' _ _ _ _ _ _ _ hs
      split at h
      · rename_i hc
        obtain ⟨⟨n, s'⟩, hn, h⟩ := Except.bind_eq_ok.1 h
        cases h
        have hnumber := readNumber_append (t := t) hn hr
        rw [List.cons_append] at hnumber
        rw [readValue, skipSpace_append hs]
        simp [*, bind, Except.bind]
      · cases h

theorem extends_read {levels : Nat} : Extends (read levels) := by
  induction levels with
  | zero => exact extends_readValue nofun
  | succ levels ih =>
    refine extends_readValue fun item hitem => ?_
    cases hitem
    exact ih

end Values

section Skipped

variable {item longer : List Char → Except Fault (List Char)}

theorem skipItems_append
    (hi : ∀ s rest, item s = .ok rest → rest ≠ [] → longer (s ++ t) = .ok (rest ++ t))
    (h : skipItems item bound s = .ok rest) :
    skipItems longer (bound ++ more) (s ++ t) = .ok (rest ++ t) := by
  induction bound generalizing s with
  | nil => cases h
  | cons c bound ih =>
    obtain ⟨s', hitem, h⟩ := Except.bind_eq_ok.1 h
    have hs : s' ≠ [] := by
      rintro rfl
      cases h
    have hlonger := hi s s' hitem hs
    split at h
    · cases h
    · rename_i hclose
      cases h
      simp [skipItems, hlonger, skipSpace_append hclose, bind, Except.bind]
    · rename_i hcomma
      have hrest := ih h
      simp [skipItems, hlonger, skipSpace_append hcomma, hrest, bind, Except.bind]
    · cases h

theorem skipMembers_append
    (hi : ∀ s rest, item s = .ok rest → rest ≠ [] → longer (s ++ t) = .ok (rest ++ t))
    (h : skipMembers item bound s = .ok rest) :
    skipMembers longer (bound ++ more) (s ++ t) = .ok (rest ++ t) := by
  induction bound generalizing s with
  | nil => cases h
  | cons c bound ih =>
    rw [skipMembers] at h
    split at h
    · cases h
    · rename_i hquote
      obtain ⟨s₁, hname, h⟩ := Except.bind_eq_ok.1 h
      obtain ⟨s₂, hcolon, h⟩ := Except.bind_eq_ok.1 h
      obtain ⟨s₃, hitem, h⟩ := Except.bind_eq_ok.1 h
      have hs : s₃ ≠ [] := by
        rintro rfl
        cases h
      have hlonger := hi s₂ s₃ hitem hs
      split at h
      · cases h
      · rename_i hclose
        cases h
        simp [skipMembers, skipSpace_append hquote, skipText, skipTextFrom_append hname,
          readColon_append hcolon, hlonger, skipSpace_append hclose, bind, Except.bind]
      · rename_i hcomma
        have hrest := ih h
        simp [skipMembers, skipSpace_append hquote, skipText, skipTextFrom_append hname,
          readColon_append hcolon, hlonger, skipSpace_append hcomma, hrest, bind, Except.bind]
      · cases h
    · cases h

theorem skipWithin_append (h : skipWithin bound s = .ok rest) (hr : rest ≠ []) :
    skipWithin (bound ++ more) (s ++ t) = .ok (rest ++ t) := by
  induction bound generalizing s rest t with
  | nil => cases h
  | cons c bound ih =>
    rw [skipWithin] at h
    split at h
    · cases h
    · rename_i hs
      simp only [List.cons_append, skipWithin, skipSpace_append hs, scanWord_append h]
    · rename_i hs
      simp only [List.cons_append, skipWithin, skipSpace_append hs, scanWord_append h]
    · rename_i hs
      simp only [List.cons_append, skipWithin, skipSpace_append hs, scanWord_append h]
    · rename_i hs
      simp only [List.cons_append, skipWithin, skipSpace_append hs, skipNumber_append h hr]
    · rename_i hs
      simp only [List.cons_append, skipWithin, skipSpace_append hs, skipText,
        skipTextFrom_append h]
    · rename_i hs
      split at h
      · cases h
      · rename_i hclose
        cases h
        simp only [List.cons_append, skipWithin, skipSpace_append hs, skipSpace_append hclose]
      · rename_i hopen hclose
        obtain ⟨d, x, hd⟩ := List.exists_cons_of_ne_nil hopen
        have hnot : d ≠ ']' := fun hc => hclose x (by rw [hd, hc])
        rw [hd] at h
        have hitems : skipItems (skipWithin (bound ++ more)) (d :: x ++ t) (d :: x ++ t) =
            .ok (rest ++ t) :=
          skipItems_append (fun _ _ => ih) h
        rw [List.cons_append] at hitems
        simp [skipWithin, skipSpace_append hs, skipSpace_append hd, hnot, hitems]
    · rename_i hs
      split at h
      · cases h
      · rename_i hclose
        cases h
        simp only [List.cons_append, skipWithin, skipSpace_append hs, skipSpace_append hclose]
      · rename_i hopen hclose
        obtain ⟨d, x, hd⟩ := List.exists_cons_of_ne_nil hopen
        have hnot : d ≠ '}' := fun hc => hclose x (by rw [hd, hc])
        rw [hd] at h
        have hmembers : skipMembers (skipWithin (bound ++ more)) (d :: x ++ t) (d :: x ++ t) =
            .ok (rest ++ t) :=
          skipMembers_append (fun _ _ => ih) h
        rw [List.cons_append] at hmembers
        simp [skipWithin, skipSpace_append hs, skipSpace_append hd, hnot, hmembers]
    · rename_i c s' _ _ _ _ _ _ _ hs
      split at h
      · rename_i hc
        have hnumber := skipNumber_append (t := t) h hr
        rw [List.cons_append] at hnumber
        rw [List.cons_append, skipWithin, skipSpace_append hs]
        simp [*]
      · cases h

theorem skip_append (h : skip s = .ok rest) (hr : rest ≠ []) :
    skip (s ++ t) = .ok (rest ++ t) :=
  skipWithin_append h hr

end Skipped

end AnalyzerBridge.Json
