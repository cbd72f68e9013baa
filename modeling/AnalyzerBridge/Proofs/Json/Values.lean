import AnalyzerBridge.Proofs.Json.Tokens

/-! Values as they are written are read and skipped up to their end. The induction is on the levels
that may be opened, which the grammar and the readers count alike. -/
namespace AnalyzerBridge.Json

/-- A reader takes this text for this value, whatever spaces come before it and whatever may follow
a value behind it. -/
structure Reads {α : Type} (read : List Char → Except Fault (α × List Char)) (a : α)
    (s : List Char) : Prop where
  begins : Begins s
  eq : ∀ g rest, Gap g → Delimited rest → read (g ++ (s ++ rest)) = .ok (a, rest)

/-- The same of a reader that gives no value. -/
structure Skips (skip : List Char → Except Fault (List Char)) (s : List Char) : Prop where
  begins : Begins s
  eq : ∀ g rest, Gap g → Delimited rest → skip (g ++ (s ++ rest)) = .ok rest

variable {α ν : Type} {g h s t b rest bound : List Char} {c : Char} {first : Bool}
  {P : α → List Char → Prop} {N : ν → List Char → Prop}

theorem Begins.append (hs : Begins s) : Begins (s ++ t) := by
  obtain ⟨c, s, rfl, hc⟩ := hs
  exact ⟨c, s ++ t, rfl, hc⟩

theorem begins_cons (hc : c ∉ [' ', '\t', '\n', '\r', ']', '}']) : Begins (c :: s) :=
  ⟨c, s, rfl, hc⟩

theorem MemberText.begins {m : ν × α} (hm : MemberText N P m s) : Begins s := by
  cases hm
  exact begins_cons (by decide)

/-- What comes behind the first part starts with a space, a comma or the closing bracket. -/
theorem Inside.delimited {as : List α} {close : Char} (hi : Inside close P false as t)
    (hc : close ∈ [']', '}']) : Delimited (t ++ rest) := by
  cases hi with
  | close hg =>
    rw [List.append_assoc]
    exact delimited_gap hg (List.mem_cons_of_mem _ hc)
  | next hg =>
    rw [List.append_assoc]
    exact delimited_gap hg (by simp)

/-- Each part takes at least one character. -/
theorem Inside.length_lt {as : List α} {close : Char} (hi : Inside close P first as t)
    (hP : ∀ a s, P a s → Begins s) : as.length < t.length := by
  induction hi with
  | close => simp
  | first hg ha hi ih | next hg hh ha hi ih =>
    obtain ⟨c, s, rfl, _⟩ := hP _ _ ha
    simp only [List.length_append, List.length_cons]
    omega

section Lists

theorem nextItem_close (hg : Gap g) : nextItem first (g ++ ']' :: s) = .ok (.close s) := by
  rw [nextItem, skipSpace_gap hg, skipSpace_cons (by decide)]
  rfl

theorem nextItem_first (hg : Gap g) (hs : Begins s) : nextItem true (g ++ s) = .ok (.entry s) := by
  obtain ⟨c, s, rfl, hc⟩ := hs
  have hspace : c ∉ [' ', '\t', '\n', '\r'] := by simp_all
  have hclose : c ≠ ']' := by simp_all
  simp [nextItem, skipSpace_gap hg, skipSpace_cons hspace]

theorem nextItem_comma (hg : Gap g) (hh : Gap h) (hs : Begins s) :
    nextItem false (g ++ ',' :: (h ++ s)) = .ok (.entry s) := by
  obtain ⟨c, s, rfl, hc⟩ := hs
  have hspace : c ∉ [' ', '\t', '\n', '\r'] := by simp_all
  have hclose : c ≠ ']' := by simp_all
  have hcomma : ',' ∉ [' ', '\t', '\n', '\r'] := by decide
  simp [nextItem, skipSpace_gap hg, skipSpace_gap hh, skipSpace_cons hspace, skipSpace_cons hcomma,
    hclose]

/-- Before an item nothing but spaces and a comma is passed over. -/
theorem nextItem_inside (rest : List Char) {a : α} {as : List α} (hi : Inside ']' P first (a :: as) t)
    (hB : ∀ a s, P a s → Begins s) : ∃ s t', P a s ∧ Inside ']' P false as t' ∧
      nextItem first (t ++ rest) = .ok (.entry (s ++ (t' ++ rest))) := by
  cases hi with
  | @first _ _ g s t' hg ha hi =>
    refine ⟨s, t', ha, hi, ?_⟩
    rw [List.append_assoc, List.append_assoc, nextItem_first hg (hB a s ha).append]
  | @next _ _ g h s t' hg hh ha hi =>
    refine ⟨s, t', ha, hi, ?_⟩
    rw [List.append_assoc, List.cons_append, List.append_assoc, List.append_assoc,
      nextItem_comma hg hh (hB a s ha).append]

/-- The items of a list are read up to the closing bracket. -/
theorem readItems_inside (done : List α) {as : List α}
    {item : List Char → Except Fault (α × List Char)} (hi : Inside ']' P first as t) (hP : ∀ a s, P a s → Reads item a s)
    (hb : as.length < bound.length) :
    readItems item bound first done (t ++ rest) = .ok (done.reverse ++ as, rest) := by
  induction as generalizing done bound first t with
  | nil =>
    obtain ⟨x, bound, rfl⟩ := List.exists_cons_of_length_pos hb
    cases hi with
    | close hg =>
      rw [List.append_assoc, List.singleton_append, readItems, nextItem_close hg]
      simp [bind, Except.bind]
  | cons a as ih =>
    obtain ⟨x, bound, rfl⟩ := List.exists_cons_of_length_pos (Nat.zero_lt_of_lt hb)
    obtain ⟨s, t', ha, hi', hnext⟩ := nextItem_inside rest hi fun a s ha => (hP a s ha).begins
    have heq := (hP a s ha).eq [] (t' ++ rest) gap_nil (hi'.delimited (by simp))
    have hrest := ih (a :: done) hi' (Nat.lt_of_succ_lt_succ hb)
    rw [List.nil_append] at heq
    rw [readItems, hnext]
    simp [bind, Except.bind, heq, hrest]

end Lists

section Objects

theorem nextMember_close (hg : Gap g) : nextMember first (g ++ '}' :: s) = .ok (.close s) := by
  rw [nextMember, skipSpace_gap hg, skipSpace_cons (by decide)]
  rfl

theorem nextMember_first (hg : Gap g) : nextMember true (g ++ '"' :: s) = .ok (.entry s) := by
  rw [nextMember, skipSpace_gap hg, skipSpace_cons (by decide)]
  rfl

theorem nextMember_comma (hg : Gap g) (hh : Gap h) :
    nextMember false (g ++ ',' :: (h ++ '"' :: s)) = .ok (.entry s) := by
  have hcomma : ',' ∉ [' ', '\t', '\n', '\r'] := by decide
  have hquote : '"' ∉ [' ', '\t', '\n', '\r'] := by decide
  simp [nextMember, skipSpace_gap hg, skipSpace_gap hh, skipSpace_cons hcomma, skipSpace_cons hquote]

theorem readColon_gap (hg : Gap g) : readColon (g ++ ':' :: s) = .ok s := by
  rw [readColon, skipSpace_gap hg, skipSpace_cons (by decide)]
  rfl

theorem readName_spells {name : String} (hb : SpellsName name b) (hg : Gap g) :
    readName (b ++ '"' :: (g ++ ':' :: s)) = .ok (name, s) := by
  rw [readName, readText_spells hb]
  simp [bind, Except.bind, readColon_gap hg]

/-- Before the name of a member nothing but spaces, a comma and the quote is passed over. -/
theorem nextMember_inside (rest : List Char) {k : ν} {a : α} {ms : List (ν × α)}
    (hi : Inside '}' (MemberText N P) first ((k, a) :: ms) t) : ∃ b g h s t', N k b ∧ Gap g ∧ Gap h ∧
      P a s ∧ Inside '}' (MemberText N P) false ms t' ∧ nextMember first (t ++ rest) =
        .ok (.entry (b ++ '"' :: (g ++ ':' :: (h ++ (s ++ (t' ++ rest)))))) := by
  cases hi with
  | @first _ _ g _ t' hg hm hi =>
    cases hm with
    | @pair _ _ b g h s hname hbefore hafter hvalue =>
      refine ⟨b, g, h, s, t', hname, hbefore, hafter, hvalue, hi, ?_⟩
      simp [nextMember_first hg]
  | @next _ _ g h _ t' hg hh hm hi =>
    cases hm with
    | @pair _ _ b g h s hname hbefore hafter hvalue =>
      refine ⟨b, g, h, s, t', hname, hbefore, hafter, hvalue, hi, ?_⟩
      simp [nextMember_comma hg hh]

/-- The members of an object are read up to the closing bracket. -/
theorem readMembers_inside (done : List (String × α)) {ms : List (String × α)}
    {value : List Char → Except Fault (α × List Char)}
    (hi : Inside '}' (MemberText SpellsName P) first ms t)
    (hP : ∀ a s, P a s → Reads value a s) (hb : ms.length < bound.length) :
    readMembers value bound first done (t ++ rest) = .ok (done.reverse ++ ms, rest) := by
  induction ms generalizing done bound first t with
  | nil =>
    obtain ⟨x, bound, rfl⟩ := List.exists_cons_of_length_pos hb
    cases hi with
    | close hg =>
      rw [List.append_assoc, List.singleton_append, readMembers, nextMember_close hg]
      simp [bind, Except.bind]
  | cons m ms ih =>
    obtain ⟨x, bound, rfl⟩ := List.exists_cons_of_length_pos (Nat.zero_lt_of_lt hb)
    obtain ⟨k, a⟩ := m
    obtain ⟨b, g, h, s, t', hname, hg, hh, ha, hi', hnext⟩ := nextMember_inside rest hi
    have heq := (hP a s ha).eq h (t' ++ rest) hh (hi'.delimited (by simp))
    have hrest := ih ((k, a) :: done) hi' (Nat.lt_of_succ_lt_succ hb)
    rw [readMembers, hnext]
    simp [bind, Except.bind, readName_spells hname hg, heq, hrest]

end Objects

section Scalars

variable {inner : Option (List Char → Except Fault (Json × List Char))} {v : Json} {n : Nat}

/-- A character that is a digit is neither a space nor the start of any other value. -/
theorem not_mem_of_isDigit (hc : c.isDigit = true) : c ∉ [' ', '\t', '\n', '\r', ']', '}', '-', '"',
    '[', '{', 'n', 't', 'f'] := by
  intro hmem
  have hall : ∀ c ∈ [' ', '\t', '\n', '\r', ']', '}', '-', '"', '[', '{', 'n', 't', 'f'],
      c.isDigit = false := by simp
  rw [hall c hmem] at hc
  cases hc

theorem readValue_gap (hg : Gap g) : readValue inner (g ++ s) = readValue inner s := by
  rw [readValue, readValue, skipSpace_gap hg]

theorem readValue_digit (hc : c.isDigit = true) : readValue inner (c :: s) =
    (readNumber false (c :: s)).bind fun x => .ok (.number x.1, x.2) := by
  have hno := not_mem_of_isDigit hc
  simp only [List.mem_cons, List.not_mem_nil, or_false, not_or] at hno
  rw [readValue, skipSpace_cons (by simp_all)]
  split <;> simp_all [bind]

theorem readValue_minus : readValue inner ('-' :: s) =
    (readNumber true s).bind fun x => .ok (.number x.1, x.2) := by
  rw [readValue, skipSpace_cons (by decide)]
  rfl

theorem begins_digit (hc : c.isDigit = true) : Begins (c :: s) := by
  have hno := not_mem_of_isDigit hc
  exact begins_cons (by simp_all)

theorem NumberText.begins {negative : Bool} {p : Spelling} (h : NumberText negative p s) :
    Begins s := by
  cases h with
  | plain h =>
    obtain ⟨d, ds, rfl, hd⟩ := h.head
    exact begins_digit hd
  | minus => exact begins_cons (by decide)

theorem readValue_number {negative : Bool} {p : Spelling} {x : Number}
    (h : NumberText negative p s) (hx : p.number negative = .ok x) :
    Reads (readValue inner) (.number x) s where
  begins := h.begins
  eq g rest hg hr := by
    rw [readValue_gap hg]
    cases h with
    | plain h =>
      have hread := readNumber_text h hx hr
      obtain ⟨d, ds, rfl, hd⟩ := h.head
      rw [List.cons_append] at hread ⊢
      rw [readValue_digit hd, hread]
      rfl
    | minus h =>
      rw [List.cons_append, readValue_minus, readNumber_text h hx hr]
      rfl

/-- An integer is written as a number that reads as this integer. -/
theorem integer_text {i : Int} (hlow : -(twoTo 63 : Int) ≤ i) (hhigh : i < twoTo 64) : ∃ negative p,
    NumberText negative p (toString i).toList ∧ p.number negative = .ok (.int i) := by
  rcases toList_toString i with ⟨n, rfl, hs⟩ | ⟨n, hn, rfl, hs⟩
  · refine ⟨false, decimal n, ?_, ?_⟩
    · rw [hs]
      exact .plain decimal_text
    · rw [number_decimal (by omega)]
      rfl
  · refine ⟨true, decimal n, ?_, ?_⟩
    · rw [hs]
      exact .minus decimal_text
    · have hlt : twoTo 63 < twoTo 64 := by decide
      rw [number_decimal (by omega), integerOf, if_pos rfl, if_pos (by omega)]

/-- A value that opens no bracket is read whether or not one may be opened. -/
theorem readValue_scalar (h : SpellsScalar v s) : Reads (readValue inner) v s := by
  cases h with
  | null =>
    refine ⟨begins_cons (by decide), fun g rest hg _ => ?_⟩
    rw [readValue_gap hg]
    rfl
  | yes =>
    refine ⟨begins_cons (by decide), fun g rest hg _ => ?_⟩
    rw [readValue_gap hg]
    rfl
  | no =>
    refine ⟨begins_cons (by decide), fun g rest hg _ => ?_⟩
    rw [readValue_gap hg]
    rfl
  | int hlow hhigh =>
    obtain ⟨negative, p, hp, hx⟩ := integer_text hlow hhigh
    exact readValue_number hp hx
  | real hp hx => exact readValue_number hp hx
  | text hb =>
    refine ⟨begins_cons (by decide), fun g rest hg _ => ?_⟩
    rw [readValue_gap hg, List.cons_append, List.append_assoc, readValue, skipSpace_cons (by decide)]
    simp [bind, Except.bind, readText_spells hb]

end Scalars

/-- The values that the grammar gives to texts are read from them. -/
theorem read_spells {levels : Nat} {v : Json} (h : Spells levels v s) : Reads (read levels) v s := by
  induction levels generalizing v s with
  | zero => exact readValue_scalar h
  | succ levels ih =>
    rcases h with h | ⟨items, rfl, h⟩ | ⟨members, rfl, h⟩
    · exact readValue_scalar h
    · obtain @⟨t, hi⟩ := h
      refine ⟨begins_cons (by decide), fun g rest hg _ => ?_⟩
      have hlt := hi.length_lt fun a s ha => (ih ha).begins
      have hitems : readItems (read levels) (t ++ rest) true [] (t ++ rest) = .ok (items, rest) :=
        readItems_inside [] hi (fun a s ha => ih ha) (by rw [List.length_append]; omega)
      rw [read, readValue_gap hg, List.cons_append, readValue, skipSpace_cons (by decide)]
      simp [bind, Except.bind, hitems]
    · obtain @⟨t, hi⟩ := h
      refine ⟨begins_cons (by decide), fun g rest hg _ => ?_⟩
      have hlt := hi.length_lt fun _ _ hm => hm.begins
      have hmembers : readMembers (read levels) (t ++ rest) true [] (t ++ rest) =
          .ok (members, rest) :=
        readMembers_inside [] hi (fun a s ha => ih ha) (by rw [List.length_append]; omega)
      rw [read, readValue_gap hg, List.cons_append, readValue, skipSpace_cons (by decide)]
      simp [bind, Except.bind, hmembers]

end AnalyzerBridge.Json
