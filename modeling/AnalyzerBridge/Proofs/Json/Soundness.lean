import AnalyzerBridge.Proofs.Json.Record
import AnalyzerBridge.Proofs.Json.Skipping
import AnalyzerBridge.Text.Utf8

/-! A well-formed text is read only as a value that it spells. Together with the converse, the reader
and the grammar agree on every well-formed text, of which they may both refuse some: those with a
surrogate that has no partner, with a number out of range, or with too many open brackets. -/
namespace AnalyzerBridge.Json

/-- Whatever stands around this text, a reader gives only such values for it, and reads it up to its
end. -/
def Tells {α : Type} (read : List Char → Except Fault (α × List Char)) (s : List Char)
    (G : α → Prop) : Prop :=
  ∀ g rest a t, Gap g → Delimited rest → read (g ++ (s ++ rest)) = .ok (a, t) → t = rest ∧ G a

variable {α : Type} {s t u b ds rest bound : List Char} {c : Char} {n levels : Nat} {first : Bool}

section Texts

theorem UnitText.lt (hu : UnitText n u) : n < 0x10000 := by
  have hall : ∀ d ∈ hexDigits, d.2 < 16 := by decide
  cases hu with
  | digits ha hb hc hd =>
    have hi := hall _ ha
    have hj := hall _ hb
    have hk := hall _ hc
    have hl := hall _ hd
    omega

/-- What the four digits of a unit come to. -/
theorem readTextFrom_unit (done s : List Char) (first : Option Nat) (hu : UnitText n u) :
    readTextFrom (.hex first 0 0) done (u.drop 2 ++ s) = match finishHex first n with
      | .error fault => .error fault
      | .ok (state, o) => readTextFrom state (o.toList ++ done) s := by
  cases hf : finishHex first n with
  | ok x => exact unit_readTextFrom done s hu hf
  | error fault =>
    cases hu with
    | digits ha hb hc hd =>
      simp [readTextFrom, hexDigit?_of_mem ha, hexDigit?_of_mem hb, hexDigit?_of_mem hc,
        hexDigit?_of_mem hd, hf]

/-- An escape by itself is read as its character, or it is the first surrogate of a pair. -/
theorem readTextFrom_escape {done : List Char} {x : List Char × List Char} (hu : UnitText n u)
    (h : readTextFrom .plain done (u ++ s) = .ok x) :
    (0xD800 ≤ n ∧ n ≤ 0xDBFF ∧ readTextFrom (.pair n) done s = .ok x) ∨
      ((Char.ofNat n).toNat = n ∧ readTextFrom .plain (Char.ofNat n :: done) s = .ok x) := by
  have hread : readTextFrom (.hex none 0 0) done (u.drop 2 ++ s) = .ok x := by
    rw [hu.eq_cons] at h
    simpa [readTextFrom, escaped?] using h
  rw [readTextFrom_unit _ _ _ hu, finishHex] at hread
  by_cases hlow : 0xDC00 ≤ n ∧ n ≤ 0xDFFF
  · rw [if_pos hlow] at hread
    cases hread
  rw [if_neg hlow] at hread
  by_cases hhigh : 0xD800 ≤ n ∧ n ≤ 0xDBFF
  · rw [if_pos hhigh] at hread
    exact .inl ⟨hhigh.1, hhigh.2, hread⟩
  · rw [if_neg hhigh] at hread
    have hlt := hu.lt
    refine .inr ⟨Text.Utf8.toNat_ofNat ?_, hread⟩
    simp only [Nat.isValidChar]
    omega

/-- An escape behind the first surrogate of a pair is the second one. -/
theorem readTextFrom_second {high : Nat} {done : List Char} {x : List Char × List Char}
    (hu : UnitText n u) (h : readTextFrom (.pair high) done (u ++ s) = .ok x) :
    ∃ low < 0x400, n = 0xDC00 + low ∧ readTextFrom .plain
      (Char.ofNat (0x10000 + (high - 0xD800) * 0x400 + low) :: done) s = .ok x := by
  have hread : readTextFrom (.hex (some high) 0 0) done (u.drop 2 ++ s) = .ok x := by
    rw [hu.eq_cons] at h
    simpa [readTextFrom] using h
  rw [readTextFrom_unit _ _ _ hu, finishHex] at hread
  by_cases hlow : 0xDC00 ≤ n ∧ n ≤ 0xDFFF
  · rw [if_pos hlow] at hread
    exact ⟨n - 0xDC00, by omega, (Nat.add_sub_cancel' hlow.1).symm, hread⟩
  · rw [if_neg hlow] at hread
    cases hread

/-- What stands between quotes is read as what it spells. If the first surrogate of a pair stands
before it, it has to start with the second one. -/
theorem spellsText_of_read (hb : WellFormedText b) :
    (∀ done x t, readTextFrom .plain done (b ++ '"' :: rest) = .ok (x, t) →
      ∃ y, x = done.reverse ++ y ∧ SpellsText y b) ∧
    ∀ high done x t, readTextFrom (.pair high) done (b ++ '"' :: rest) = .ok (x, t) →
      ∃ low w s y, b = w ++ s ∧ UnitText (0xDC00 + low) w ∧ low < 0x400 ∧ SpellsText y s ∧
        x = done.reverse ++ Char.ofNat (0x10000 + (high - 0xD800) * 0x400 + low) :: y := by
  induction hb with
  | nil =>
    constructor
    · intro done x t h
      obtain ⟨rfl, _⟩ : done.reverse = x ∧ rest = t := by simpa [readTextFrom] using h
      exact ⟨[], by simp, .nil⟩
    · intro high done x t h
      simp [readTextFrom] at h
  | @literal c s hc _ ih =>
    constructor
    · intro done x t h
      rw [List.cons_append, literal_readTextFrom hc] at h
      obtain ⟨y, rfl, hy⟩ := ih.1 _ x t h
      exact ⟨c :: y, by simp, .literal hc hy⟩
    · intro high done x t h
      simp [readTextFrom, hc.2.1] at h
  | @short e c s he _ ih =>
    constructor
    · intro done x t h
      rw [List.cons_append, List.cons_append, short_readTextFrom he] at h
      obtain ⟨y, rfl, hy⟩ := ih.1 _ x t h
      exact ⟨c :: y, by simp, .short he hy⟩
    · intro high done x t h
      have hall : ∀ p ∈ shortEscapes, p.1 ≠ 'u' := by decide
      simp [readTextFrom, hall _ he] at h
  | @unit n u s hu _ ih =>
    constructor
    · intro done x t h
      rw [List.append_assoc] at h
      rcases readTextFrom_escape hu h with ⟨hmin, hmax, h⟩ | ⟨hc, h⟩
      · obtain ⟨low, w, s, y, rfl, hw, hl, hy, rfl⟩ := ih.2 n done x t h
        have hc := Text.Utf8.toNat_ofNat (n := 0x10000 + (n - 0xD800) * 0x400 + low)
          (Or.inr ⟨by omega, by omega⟩)
        have hu : UnitText (0xD800 + (n - 0xD800)) u := by rwa [Nat.add_sub_cancel' hmin]
        exact ⟨_, rfl, .pair hu hw (by omega) hl hc hy⟩
      · obtain ⟨y, rfl, hy⟩ := ih.1 _ x t h
        exact ⟨Char.ofNat n :: y, by simp, .unit (hc.symm ▸ hu) hy⟩
    · intro high done x t h
      rw [List.append_assoc] at h
      obtain ⟨low, hl, rfl, h⟩ := readTextFrom_second hu h
      obtain ⟨y, rfl, hy⟩ := ih.1 _ x t h
      exact ⟨low, u, s, y, rfl, hu, hl, hy, by simp⟩

theorem spellsText_of_readText {name : String} (hb : WellFormedText b)
    (h : readText (b ++ '"' :: rest) = .ok (name, t)) : t = rest ∧ SpellsText name.toList b := by
  obtain ⟨⟨x, u⟩, hx, hname⟩ := Except.bind_eq_ok.1 h
  cases hname
  obtain ⟨y, rfl, hy⟩ := (spellsText_of_read hb).1 [] x t hx
  have hspells : SpellsText (String.ofList x).toList b := by simpa using hy
  rw [readText_spells hspells] at h
  cases h
  exact ⟨rfl, hspells⟩

end Texts

section Numbers

variable {p : Spelling} {negative : Bool} {i : Int}

theorem digit_lt (hc : c.isDigit = true) : digit c < 10 ∧ (digit c).digitChar = c := by
  simp only [Char.isDigit, Bool.and_eq_true, decide_eq_true_eq, ge_iff_le, UInt32.le_iff_toNat_le] at hc
  have hlow : 48 ≤ c.toNat := hc.1
  have hhigh : c.toNat ≤ 57 := hc.2
  have hall : ∀ k < 10, k.digitChar = Char.ofNat (k + 48) := by decide
  have hdigit : digit c = c.toNat - 48 := rfl
  refine ⟨by omega, ?_⟩
  rw [hdigit, hall _ (by omega), Nat.sub_add_cancel hlow, Char.ofNat_toNat]

/-- Digits behind those of a number are those of the number that they make together. -/
theorem toDigits_append (hd : ∀ c ∈ ds, c.isDigit = true) (hn : 0 < n) :
    Nat.toDigits 10 n ++ ds = Nat.toDigits 10 (Nat.ofDigitChars 10 ds n) := by
  induction ds generalizing n with
  | nil => rw [List.append_nil, Nat.ofDigitChars_nil]
  | cons c ds ih =>
    obtain ⟨hlt, hc⟩ := digit_lt (hd c (by simp))
    have hstep := Nat.toDigits_append_toDigits (b := 10) (by decide) hn hlt
    rw [Nat.toDigits_of_lt_base hlt, hc] at hstep
    have hrest := ih (fun e he => hd e (List.mem_cons_of_mem c he)) (n := 10 * n + digit c) (by omega)
    rw [Nat.ofDigitChars_cons, ← List.singleton_append, ← List.append_assoc, hstep]
    exact hrest

/-- Digits without a zero in front are those of their number. -/
theorem toDigits_ofDigitChars (hd : Digits ds) (hz : ds.head? = some '0' → ds = ['0']) :
    Nat.toDigits 10 (Nat.ofDigitChars 10 ds 0) = ds := by
  cases ds with
  | nil => exact absurd rfl hd.1
  | cons c ds =>
    obtain ⟨hlt, hc⟩ := digit_lt (hd.2 c (by simp))
    by_cases hzero : c = '0'
    · subst hzero
      rw [hz rfl]
      rfl
    · have hpos : 0 < digit c := by
        by_contra hno
        rw [Nat.eq_zero_of_not_pos hno] at hc
        exact hzero hc.symm
      have hrest := toDigits_append (fun e he => hd.2 e (List.mem_cons_of_mem c he)) hpos
      rw [Nat.toDigits_of_lt_base hlt, hc] at hrest
      rw [Nat.ofDigitChars_cons, Nat.mul_zero, Nat.zero_add]
      exact hrest.symm

/-- A significand that leaves no digits out is the number of its digits. -/
theorem absorb_nil {k : Nat} (h : absorb k ds = (n, [])) :
    n = Nat.ofDigitChars 10 ds k ∧ (k < twoTo 64 → n < twoTo 64) := by
  induction ds generalizing k with
  | nil =>
    cases h
    exact ⟨Nat.ofDigitChars_nil.symm, id⟩
  | cons c ds ih =>
    rw [absorb] at h
    by_cases hfits : 10 * k + digit c < twoTo 64
    · rw [if_pos hfits] at h
      obtain ⟨hn, hlt⟩ := ih h
      exact ⟨by rw [Nat.ofDigitChars_cons]; exact hn, fun _ => hlt hfits⟩
    · rw [if_neg hfits] at h
      cases h

theorem realOf_ne_int {e : Int} : realOf negative n e ≠ .ok (.int i) := by
  rw [realOf]
  split <;> simp

/-- Only whole numbers that fit are integers. -/
theorem number_eq_int (h : p.number negative = .ok (.int i)) : p.fraction = none ∧
    p.exponent = none ∧ ∃ n, absorb 0 p.whole = (n, []) ∧ integerOf negative n = .ok (.int i) := by
  obtain ⟨whole, fraction, exponent⟩ := p
  rw [Spelling.number] at h
  cases exponent with
  | some x =>
    by_cases hlarge : x.2.foldl (fun e c => 10 * e + digit c) 0 > maxExponent
    · simp only [if_pos hlarge] at h
      split at h <;> split at h <;> cases h
    · simp only [if_neg hlarge] at h
      exact absurd h realOf_ne_int
  | none =>
    cases fraction with
    | some ds =>
      simp only [Option.isNone_some, Bool.false_and, Bool.false_eq_true, if_false] at h
      exact absurd h realOf_ne_int
    | none =>
      cases ha : absorb 0 whole with
      | mk n dropped =>
        simp only [ha] at h
        cases dropped with
        | cons d dropped => exact absurd h realOf_ne_int
        | nil => exact ⟨rfl, rfl, n, rfl, h⟩

/-- A number is read only as what its spelling comes to. -/
theorem number_of_readNumber {x : Number} (h : SpellingText p s) (hr : Delimited rest)
    (hx : readNumber negative (s ++ rest) = .ok (x, t)) : p.number negative = .ok x := by
  obtain ⟨y, hy, hx⟩ := Except.bind_eq_ok.1 hx
  rw [scanSpelling_text h hr] at hy
  cases hy
  obtain ⟨z, hz, hx⟩ := Except.bind_eq_ok.1 hx
  cases hx
  exact hz

/-- A number is read only as one that it spells. -/
theorem spellsScalar_number {x : Number} (h : NumberText negative p s)
    (hx : p.number negative = .ok x) : SpellsScalar (.number x) s := by
  cases x with
  | real x => exact .real h hx
  | int i =>
    obtain ⟨hfraction, hexponent, n, habsorb, hint⟩ := number_eq_int hx
    obtain ⟨hn, hlt⟩ := absorb_nil habsorb
    have hlt := hlt (by decide)
    have hspelling : ∀ s, SpellingText p s → s = Nat.toDigits 10 n := by
      intro s hs
      cases hs with
      | parts hd hz hf he =>
        subst hfraction hexponent
        cases hf
        cases he
        rw [hn, toDigits_ofDigitChars hd hz, List.append_nil, List.append_nil]
    cases h with
    | plain hs =>
      obtain rfl : (n : Int) = i := by simpa [integerOf] using hint
      have htext : s = (toString (n : Int)).toList := by
        rw [hspelling s hs, Int.toString_eq_repr, Int.repr_eq_if, if_pos (Int.natCast_nonneg n),
          Int.toNat_natCast, Nat.toList_repr]
      rw [htext]
      exact .int (by omega) (by omega)
    | @minus _ s hs =>
      rw [integerOf, if_pos rfl] at hint
      by_cases hfits : 0 < n ∧ n ≤ twoTo 63
      · rw [if_pos hfits] at hint
        obtain rfl : (-n : Int) = i := by simpa using hint
        have htext : '-' :: s = (toString (-n : Int)).toList := by
          rw [hspelling s hs, Int.toString_eq_repr, Int.repr_eq_if, if_neg (by omega), Int.neg_neg,
            Int.toNat_natCast, String.toList_append, Nat.toList_repr]
          rfl
        rw [htext]
        exact .int (by omega) (by omega)
      · rw [if_neg hfits] at hint
        exact absurd hint realOf_ne_int

end Numbers

section Values

variable {W : List Char → Prop} {P : α → List Char → Prop}
  {item : List Char → Except Fault (α × List Char)}
  {inner : Option (List Char → Except Fault (Json × List Char))}

theorem tells_scalar (h : WellFormedScalar s) :
    Tells (readValue inner) s (SpellsScalar · s) := by
  intro g rest v t hg hr hv
  -- a value that the text spells is the one that is read
  have hsame {w : Json} (hw : SpellsScalar w s) : t = rest ∧ SpellsScalar v s := by
    rw [(readValue_scalar hw).eq g rest hg hr] at hv
    cases hv
    exact ⟨rfl, hw⟩
  cases h with
  | word hw =>
    simp only [List.mem_cons, List.not_mem_nil, or_false] at hw
    rcases hw with rfl | rfl | rfl
    · exact hsame .null
    · exact hsame .yes
    · exact hsame .no
  | @number negative p _ hp =>
    have hread : ∃ x, p.number negative = .ok x := by
      rw [readValue_gap hg] at hv
      cases hp with
      | plain hp =>
        obtain ⟨d, ds, rfl, hd⟩ := hp.head
        rw [List.cons_append, readValue_digit hd] at hv
        obtain ⟨x, hx, _⟩ := Except.bind_eq_ok.1 hv
        exact ⟨x.1, number_of_readNumber hp hr hx⟩
      | minus hp =>
        rw [List.cons_append, readValue_minus] at hv
        obtain ⟨x, hx, _⟩ := Except.bind_eq_ok.1 hv
        exact ⟨x.1, number_of_readNumber hp hr hx⟩
    obtain ⟨x, hx⟩ := hread
    exact hsame (spellsScalar_number hp hx)
  | text hb =>
    rw [readValue_gap hg, List.cons_append, List.append_assoc, readValue,
      skipSpace_cons (by decide)] at hv
    obtain ⟨⟨name, u⟩, hname, hv⟩ := Except.bind_eq_ok.1 hv
    cases hv
    obtain ⟨rfl, hspells⟩ := spellsText_of_readText hb hname
    exact ⟨rfl, .text hspells⟩

/-- The items that are read are those of the list. -/
theorem inside_of_readItems {us : List Unit} {done as : List α}
    (hi : Inside ']' (fun _ : Unit => W) first us s) (hB : ∀ s, W s → Begins s)
    (hT : ∀ s, W s → Tells item s (P · s))
    (h : readItems item bound first done (s ++ rest) = .ok (as, t)) :
    t = rest ∧ ∃ bs, as = done.reverse ++ bs ∧ Inside ']' P first bs s := by
  induction hi generalizing bound done with
  | close hg =>
    cases bound with
    | nil => cases h
    | cons c bound =>
      rw [List.append_assoc, List.singleton_append, readItems, nextItem_close hg] at h
      cases h
      exact ⟨rfl, [], by simp, .close hg⟩
  | first hg hs hi ih =>
    cases bound with
    | nil => cases h
    | cons c bound =>
      obtain ⟨next, hnext, h⟩ := Except.bind_eq_ok.1 h
      rw [List.append_assoc, List.append_assoc, nextItem_first hg (hB _ hs).append] at hnext
      cases hnext
      obtain ⟨⟨a, u⟩, ha, h⟩ := Except.bind_eq_ok.1 h
      obtain ⟨rfl, hP⟩ := hT _ hs [] _ a u gap_nil (hi.delimited (by simp)) ha
      obtain ⟨rfl, bs, rfl, hbs⟩ := ih h
      exact ⟨rfl, a :: bs, by simp, .first hg hP hbs⟩
  | next hg hh hs hi ih =>
    cases bound with
    | nil => cases h
    | cons c bound =>
      obtain ⟨next, hnext, h⟩ := Except.bind_eq_ok.1 h
      rw [List.append_assoc, List.cons_append, List.append_assoc, List.append_assoc,
        nextItem_comma hg hh (hB _ hs).append] at hnext
      cases hnext
      obtain ⟨⟨a, u⟩, ha, h⟩ := Except.bind_eq_ok.1 h
      obtain ⟨rfl, hP⟩ := hT _ hs [] _ a u gap_nil (hi.delimited (by simp)) ha
      obtain ⟨rfl, bs, rfl, hbs⟩ := ih h
      exact ⟨rfl, a :: bs, by simp, .next hg hh hP hbs⟩

/-- A name and its value are read as the member that they are. -/
theorem memberText_of_read {name : String} {a : α} {g h s : List Char} (hb : WellFormedText b)
    (hg : Gap g) (hh : Gap h) (hs : Tells item s (P · s)) (hr : Delimited rest)
    (hname : readName (b ++ '"' :: (g ++ ':' :: (h ++ (s ++ rest)))) = .ok (name, t))
    (hvalue : item t = .ok (a, u)) : u = rest ∧
      MemberText SpellsName P (name, a) ('"' :: (b ++ '"' :: (g ++ ':' :: (h ++ s)))) := by
  obtain ⟨⟨name, v⟩, htext, hname⟩ := Except.bind_eq_ok.1 hname
  obtain ⟨rfl, hspells⟩ := spellsText_of_readText hb htext
  obtain ⟨w, hcolon, hname⟩ := Except.bind_eq_ok.1 hname
  rw [readColon_gap hg] at hcolon
  cases hcolon
  cases hname
  obtain ⟨rfl, hP⟩ := hs h rest a u hh hr hvalue
  exact ⟨rfl, .pair hspells hg hh hP⟩

/-- The members that are read are those of the object. -/
theorem inside_of_readMembers {us : List (Unit × Unit)} {done ms : List (String × α)}
    (hi : Inside '}' (MemberText (fun _ : Unit => WellFormedText) fun _ : Unit => W) first us s)
    (hT : ∀ s, W s → Tells item s (P · s))
    (h : readMembers item bound first done (s ++ rest) = .ok (ms, t)) :
    t = rest ∧ ∃ ns, ms = done.reverse ++ ns ∧ Inside '}' (MemberText SpellsName P) first ns s := by
  induction hi generalizing bound done with
  | close hg =>
    cases bound with
    | nil => cases h
    | cons c bound =>
      rw [List.append_assoc, List.singleton_append, readMembers, nextMember_close hg] at h
      cases h
      exact ⟨rfl, [], by simp, .close hg⟩
  | first hg hm hi ih =>
    cases bound with
    | nil => cases h
    | cons c bound =>
      cases hm with
      | pair hb hbefore hafter hs =>
        obtain ⟨next, hnext, h⟩ := Except.bind_eq_ok.1 h
        simp only [List.append_assoc, List.cons_append, nextMember_first hg] at hnext
        cases hnext
        obtain ⟨⟨name, v⟩, hname, h⟩ := Except.bind_eq_ok.1 h
        obtain ⟨⟨a, u⟩, ha, h⟩ := Except.bind_eq_ok.1 h
        obtain ⟨rfl, hmember⟩ := memberText_of_read hb hbefore hafter (hT _ hs)
          (hi.delimited (by simp)) hname ha
        obtain ⟨rfl, ns, rfl, hns⟩ := ih h
        exact ⟨rfl, (name, a) :: ns, by simp, .first hg hmember hns⟩
  | next hg hh hm hi ih =>
    cases bound with
    | nil => cases h
    | cons c bound =>
      cases hm with
      | pair hb hbefore hafter hs =>
        obtain ⟨next, hnext, h⟩ := Except.bind_eq_ok.1 h
        simp only [List.append_assoc, List.cons_append, nextMember_comma hg hh] at hnext
        cases hnext
        obtain ⟨⟨name, v⟩, hname, h⟩ := Except.bind_eq_ok.1 h
        obtain ⟨⟨a, u⟩, ha, h⟩ := Except.bind_eq_ok.1 h
        obtain ⟨rfl, hmember⟩ := memberText_of_read hb hbefore hafter (hT _ hs)
          (hi.delimited (by simp)) hname ha
        obtain ⟨rfl, ns, rfl, hns⟩ := ih h
        exact ⟨rfl, (name, a) :: ns, by simp, .next hg hh hmember hns⟩

end Values

/-- From a text of JSON only such values are read as the grammar gives to it. -/
theorem read_tells (h : WellFormed n s) : Tells (read levels) s (Spells levels · s) := by
  induction levels generalizing n s with
  | zero =>
    cases n with
    | zero => exact tells_scalar h
    | succ n =>
      rcases h with h | ⟨items, ⟨_⟩⟩ | ⟨members, ⟨_⟩⟩
      · exact tells_scalar h
      · -- no bracket may be opened
        intro g rest v t hg _ hv
        rw [read, readValue_gap hg] at hv
        cases hv
      · intro g rest v t hg _ hv
        rw [read, readValue_gap hg] at hv
        cases hv
  | succ levels ih =>
    have hscalar : WellFormedScalar s → Tells (read (levels + 1)) s (Spells (levels + 1) · s) := by
      intro h g rest v t hg hr hv
      obtain ⟨rfl, hs⟩ := tells_scalar h g rest v t hg hr hv
      exact ⟨rfl, .inl hs⟩
    cases n with
    | zero => exact hscalar h
    | succ n =>
      rcases h with h | ⟨items, h⟩ | ⟨members, h⟩
      · exact hscalar h
      · obtain @⟨s, hi⟩ := h
        intro g rest v t hg _ hv
        rw [read, readValue_gap hg] at hv
        obtain ⟨⟨as, u⟩, has, hv⟩ := Except.bind_eq_ok.1 hv
        cases hv
        obtain ⟨rfl, as, rfl, hlist⟩ :=
          inside_of_readItems hi (fun s hs => WellFormed.begins hs) (fun s hs => ih hs) has
        exact ⟨rfl, .inr (.inl ⟨as, rfl, .items hlist⟩)⟩
      · obtain @⟨s, hi⟩ := h
        intro g rest v t hg _ hv
        rw [read, readValue_gap hg] at hv
        obtain ⟨⟨ms, u⟩, hms, hv⟩ := Except.bind_eq_ok.1 hv
        cases hv
        obtain ⟨rfl, ms, rfl, hobject⟩ := inside_of_readMembers hi (fun s hs => ih hs) hms
        exact ⟨rfl, .inr (.inr ⟨ms, rfl, .members hobject⟩)⟩

end AnalyzerBridge.Json
