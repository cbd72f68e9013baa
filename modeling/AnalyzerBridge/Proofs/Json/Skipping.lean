import AnalyzerBridge.Proofs.Json.Values

/-! Every text of JSON can be skipped, however deep it is nested, however large its numbers are, and
whatever units its texts hold. -/
namespace AnalyzerBridge.Json

variable {α ν : Type} {g h s t b rest bound : List Char} {c : Char} {k : Nat}
  {P : α → List Char → Prop} {N : ν → List Char → Prop}
  {item value : List Char → Except Fault (List Char)}

section Brackets

/-- The rest of a list is skipped from the start of one of its items. -/
theorem skipItems_inside {as : List α} (hi : Inside ']' P false as t)
    (hP : ∀ a s, P a s → s.length ≤ k → Skips item s) (hk : t.length ≤ k) (hs : Skips item s)
    (hg : Gap g) (hb : as.length < bound.length) :
    skipItems item bound (g ++ (s ++ (t ++ rest))) = .ok rest := by
  have heq := hs.eq g (t ++ rest) hg (hi.delimited (by simp))
  induction as generalizing g s t bound with
  | nil =>
    obtain ⟨x, bound, rfl⟩ := List.exists_cons_of_length_pos hb
    cases hi with
    | close hclose =>
      rw [skipItems, heq]
      simp [bind, Except.bind, skipSpace_gap hclose, skipSpace_cons]
  | cons a as ih =>
    obtain ⟨x, bound, rfl⟩ := List.exists_cons_of_length_pos (Nat.zero_lt_of_lt hb)
    cases hi with
    | @next _ _ g' h' s' t hg' hh' ha hi =>
      simp only [List.length_append, List.length_cons] at hk
      have hs' := hP a s' ha (by omega)
      have hrest := ih hi (by omega) hs' hh' (Nat.lt_of_succ_lt_succ hb)
        (hs'.eq h' (t ++ rest) hh' (hi.delimited (by simp)))
      rw [skipItems, heq]
      simp [bind, Except.bind, skipSpace_gap hg', skipSpace_cons, hrest]

/-- A member is skipped up to the space behind it. -/
theorem skipMembers_member {m : ν × α} (hm : MemberText N P m s)
    (hN : ∀ a b, N a b → WellFormedText b) (hP : ∀ a s, P a s → s.length ≤ k → Skips value s)
    (hk : s.length ≤ k) (hg : Gap g) (hr : Delimited rest) :
    (∀ t, skipSpace rest = '}' :: t → skipMembers value (c :: bound) (g ++ (s ++ rest)) = .ok t) ∧
    ∀ t, skipSpace rest = ',' :: t →
      skipMembers value (c :: bound) (g ++ (s ++ rest)) = skipMembers value bound t := by
  obtain ⟨hname, hbefore, hafter, hvalue⟩ := hm
  simp only [List.length_append, List.length_cons] at hk
  have heq := (hP _ _ hvalue (by omega)).eq _ rest hafter hr
  constructor
  · intro t ht
    simp [skipMembers, skipSpace_gap hg, skipSpace_cons, skipText_wellFormed (hN _ _ hname),
      readColon_gap hbefore, heq, ht, bind, Except.bind]
  · intro t ht
    simp [skipMembers, skipSpace_gap hg, skipSpace_cons, skipText_wellFormed (hN _ _ hname),
      readColon_gap hbefore, heq, ht, bind, Except.bind]

/-- The rest of an object is skipped from the start of one of its members. -/
theorem skipMembers_inside {ms : List (ν × α)} {m : ν × α}
    (hi : Inside '}' (MemberText N P) false ms t) (hN : ∀ a b, N a b → WellFormedText b)
    (hP : ∀ a s, P a s → s.length ≤ k → Skips value s) (hk : s.length + t.length ≤ k)
    (hm : MemberText N P m s) (hg : Gap g) (hb : ms.length < bound.length) :
    skipMembers value bound (g ++ (s ++ (t ++ rest))) = .ok rest := by
  have hr : Delimited (t ++ rest) := hi.delimited (by simp)
  induction ms generalizing g s t m bound with
  | nil =>
    obtain ⟨x, bound, rfl⟩ := List.exists_cons_of_length_pos hb
    cases hi with
    | @close _ g' hclose =>
      refine (skipMembers_member hm hN hP (by omega) hg hr).1 rest ?_
      simp [skipSpace_gap hclose, skipSpace_cons]
  | cons m' ms ih =>
    obtain ⟨x, bound, rfl⟩ := List.exists_cons_of_length_pos (Nat.zero_lt_of_lt hb)
    cases hi with
    | @next _ _ g' h' s' t hg' hh' hm' hi =>
      have hcomma : skipSpace (g' ++ ',' :: (h' ++ (s' ++ t)) ++ rest) =
          ',' :: (h' ++ (s' ++ (t ++ rest))) := by
        simp [skipSpace_gap hg', skipSpace_cons]
      rw [(skipMembers_member hm hN hP (by omega) hg hr).2 _ hcomma]
      simp only [List.length_append, List.length_cons] at hk
      exact ih hi (by omega) hm' hh' (Nat.lt_of_succ_lt_succ hb) (hi.delimited (by simp))

end Brackets

theorem skipWithin_gap (hg : Gap g) : skipWithin bound (g ++ s) = skipWithin bound s := by
  cases bound with
  | nil => rfl
  | cons c bound => rw [skipWithin, skipWithin, skipSpace_gap hg]

theorem skipWithin_digit (hc : c.isDigit = true) {d : Char} :
    skipWithin (d :: bound) (c :: s) = skipNumber (c :: s) := by
  have hno := not_mem_of_isDigit hc
  simp only [List.mem_cons, List.not_mem_nil, or_false, not_or] at hno
  rw [skipWithin, skipSpace_cons (by simp_all)]
  split <;> simp_all

theorem skipWithin_scalar {d : Char} (h : WellFormedScalar s) :
    Skips (skipWithin (d :: bound)) s := by
  cases h with
  | word hw =>
    simp only [List.mem_cons, List.not_mem_nil, or_false] at hw
    rcases hw with rfl | rfl | rfl
    all_goals
      refine ⟨begins_cons (by decide), fun g rest hg _ => ?_⟩
      rw [skipWithin_gap hg]
      rfl
  | number hp =>
    refine ⟨hp.begins, fun g rest hg hr => ?_⟩
    rw [skipWithin_gap hg]
    cases hp with
    | plain hp =>
      have hskip := skipNumber_text hp hr
      obtain ⟨d, ds, rfl, hd⟩ := hp.head
      rw [List.cons_append] at hskip ⊢
      rw [skipWithin_digit hd, hskip]
    | minus hp =>
      rw [List.cons_append, skipWithin, skipSpace_cons (by decide)]
      exact skipNumber_text hp hr
  | text hb =>
    refine ⟨begins_cons (by decide), fun g rest hg _ => ?_⟩
    rw [skipWithin_gap hg, List.cons_append, List.append_assoc, skipWithin,
      skipSpace_cons (by decide)]
    exact skipText_wellFormed hb

theorem skipWithin_list {as : List α} {d : Char} (h : ListText P as s)
    (hB : ∀ a s, P a s → Begins s)
    (hP : ∀ a s, P a s → s.length ≤ bound.length → Skips (skipWithin bound) s)
    (hb : s.length ≤ bound.length + 1) : Skips (skipWithin (d :: bound)) s := by
  obtain @⟨t, hi⟩ := h
  refine ⟨begins_cons (by decide), fun g rest hg _ => ?_⟩
  rw [List.length_cons] at hb
  rw [skipWithin_gap hg, List.cons_append, skipWithin, skipSpace_cons (by decide)]
  cases hi with
  | close hclose => simp [skipSpace_gap hclose, skipSpace_cons]
  | @first a as g' s t hg' ha hi =>
    simp only [List.length_append] at hb
    have hlt := hi.length_lt hB
    have hitems : skipItems (skipWithin bound) (s ++ (t ++ rest)) ([] ++ (s ++ (t ++ rest))) =
        .ok rest :=
      skipItems_inside hi hP (by omega) (hP a s ha (by omega)) gap_nil
        (by simp only [List.length_append]; omega)
    rw [List.nil_append] at hitems
    rw [List.append_assoc, List.append_assoc]
    simp only [skipSpace_gap hg', (hB a s ha).skipSpace]
    obtain ⟨c, s, rfl, hc⟩ := hB a s ha
    rw [List.cons_append] at hitems ⊢
    split
    · rename_i heq
      cases heq
    · rename_i heq
      obtain rfl := (List.cons.inj heq).1
      simp at hc
    · exact hitems

theorem skipWithin_object {ms : List (ν × α)} {d : Char} (h : ObjectText N P ms s)
    (hN : ∀ a b, N a b → WellFormedText b)
    (hP : ∀ a s, P a s → s.length ≤ bound.length → Skips (skipWithin bound) s)
    (hb : s.length ≤ bound.length + 1) : Skips (skipWithin (d :: bound)) s := by
  obtain @⟨t, hi⟩ := h
  refine ⟨begins_cons (by decide), fun g rest hg _ => ?_⟩
  rw [List.length_cons] at hb
  rw [skipWithin_gap hg, List.cons_append, skipWithin, skipSpace_cons (by decide)]
  cases hi with
  | close hclose => simp [skipSpace_gap hclose, skipSpace_cons]
  | @first m ms g' s t hg' hm hi =>
    simp only [List.length_append] at hb
    have hlt := hi.length_lt fun _ _ hm => hm.begins
    have hmembers : skipMembers (skipWithin bound) (s ++ (t ++ rest)) ([] ++ (s ++ (t ++ rest))) =
        .ok rest :=
      skipMembers_inside hi hN hP (by omega) hm gap_nil (by simp only [List.length_append]; omega)
    rw [List.nil_append] at hmembers
    rw [List.append_assoc, List.append_assoc]
    simp only [skipSpace_gap hg', hm.begins.skipSpace]
    obtain ⟨c, s, rfl, hc⟩ := hm.begins
    rw [List.cons_append] at hmembers ⊢
    split
    · rename_i heq
      cases heq
    · rename_i heq
      obtain rfl := (List.cons.inj heq).1
      simp at hc
    · exact hmembers

theorem WellFormed.begins {levels : Nat} (h : WellFormed levels s) : Begins s := by
  have hscalar : WellFormedScalar s → Begins s := by
    intro h
    have hskips : Skips (skipWithin [' ']) s := skipWithin_scalar h
    exact hskips.begins
  cases levels with
  | zero => exact hscalar h
  | succ levels =>
    rcases h with h | ⟨_, ⟨_⟩⟩ | ⟨_, ⟨_⟩⟩
    · exact hscalar h
    · exact begins_cons (by decide)
    · exact begins_cons (by decide)

/-- A text of JSON is skipped within any bound that is no shorter. -/
theorem skipWithin_wellFormed {levels : Nat} (h : WellFormed levels s)
    (hb : s.length ≤ bound.length) : Skips (skipWithin bound) s := by
  induction levels generalizing s bound with
  | zero =>
    obtain ⟨c, s, rfl, _⟩ := h.begins
    obtain ⟨d, bound, rfl⟩ := List.exists_cons_of_length_pos (Nat.zero_lt_of_lt hb)
    exact skipWithin_scalar h
  | succ levels ih =>
    obtain ⟨c, s, rfl, _⟩ := h.begins
    obtain ⟨d, bound, rfl⟩ := List.exists_cons_of_length_pos (Nat.zero_lt_of_lt hb)
    rcases h with h | ⟨items, h⟩ | ⟨members, h⟩
    · exact skipWithin_scalar h
    · exact skipWithin_list h (fun _ _ ha => ha.begins) (fun _ _ ha hs => ih ha hs) hb
    · exact skipWithin_object h (fun _ _ hb => hb) (fun _ _ ha hs => ih ha hs) hb

/-- A text of JSON is skipped up to its end. -/
theorem skip_wellFormed {levels : Nat} (h : WellFormed levels s) : Skips skip s := by
  refine ⟨h.begins, fun g rest hg hr => ?_⟩
  have hb : s.length ≤ (g ++ (s ++ rest)).length := by
    simp only [List.length_append]
    omega
  exact (skipWithin_wellFormed h hb).eq g rest hg hr

end AnalyzerBridge.Json
