import AnalyzerBridge.Proofs.Json.Grammar
import Mathlib.Data.List.TakeWhile

/-! Tokens as they are written are read and skipped up to their end: spaces, words, texts, numbers. -/
namespace AnalyzerBridge.Json

variable {g s t u w b ds rest done : List Char} {c d : Char} {n : Nat} {p : Spelling}
  {negative : Bool}

/-- What may follow a value: the end, a space, a comma, or a closing bracket. -/
def Delimited (rest : List Char) : Prop :=
  ∀ c, rest.head? = some c → c ∈ [' ', '\t', '\n', '\r', ',', ']', '}']

/-- The text starts with a character that is neither a space nor a closing bracket. -/
def Begins (s : List Char) : Prop :=
  ∃ c t, s = c :: t ∧ c ∉ [' ', '\t', '\n', '\r', ']', '}']

theorem isSpace_iff : isSpace c = true ↔ c ∈ [' ', '\t', '\n', '\r'] := by
  simp [isSpace, or_assoc]

theorem skipSpace_gap (hg : Gap g) : skipSpace (g ++ s) = skipSpace s := by
  induction g with
  | nil => rfl
  | cons c g ih =>
    have hc : isSpace c = true := isSpace_iff.2 (hg c (by simp))
    rw [List.cons_append, skipSpace, List.dropWhile_cons_of_pos hc]
    exact ih fun d hd => hg d (List.mem_cons_of_mem c hd)

theorem skipSpace_cons (hc : c ∉ [' ', '\t', '\n', '\r']) : skipSpace (c :: s) = c :: s := by
  have hno : ¬ isSpace c = true := fun h => hc (isSpace_iff.1 h)
  rw [skipSpace, List.dropWhile_cons_of_neg hno]

theorem Begins.skipSpace (h : Begins s) : skipSpace (s ++ t) = s ++ t := by
  obtain ⟨c, s, rfl, hc⟩ := h
  rw [List.cons_append]
  exact skipSpace_cons (by simp_all)

theorem Gap.delimited (hg : Gap g) : Delimited g := by
  intro c hc
  cases g with
  | nil => cases hc
  | cons d g =>
    obtain rfl : d = c := by simpa using hc
    exact List.mem_append_left [',', ']', '}'] (hg d (by simp))

theorem Gap.skipSpace (hg : Gap g) : skipSpace g = [] := by
  have hskip := skipSpace_gap (s := []) hg
  rw [List.append_nil] at hskip
  exact hskip

theorem delimited_gap (hg : Gap g) (hc : c ∈ [',', ']', '}']) : Delimited (g ++ c :: s) := by
  intro d hd
  cases g with
  | nil =>
    obtain rfl : c = d := by simpa using hd
    exact List.mem_append_right [' ', '\t', '\n', '\r'] hc
  | cons e g =>
    obtain rfl : e = d := by simpa using hd
    exact List.mem_append_left [',', ']', '}'] (hg e (by simp))

section Texts

theorem hexDigit?_of_mem (h : (c, n) ∈ hexDigits) : hexDigit? c = some n := by
  have hall : ∀ x ∈ hexDigits, hexDigit? x.1 = some x.2 := by decide
  exact hall _ h

theorem escaped?_of_mem (h : (c, d) ∈ shortEscapes) : escaped? c = some d := by
  have hall : ∀ x ∈ shortEscapes, escaped? x.1 = some x.2 := by decide
  exact hall _ h

theorem literal_readTextFrom (hc : Literal c) :
    readTextFrom .plain done (c :: s) = readTextFrom .plain (c :: done) s := by
  obtain ⟨hq, hb, hl⟩ := hc
  simp [readTextFrom, hq, hb, Nat.not_lt.2 hl]

theorem short_readTextFrom (h : (c, d) ∈ shortEscapes) :
    readTextFrom .plain done ('\\' :: c :: s) = readTextFrom .plain (d :: done) s := by
  simp [readTextFrom, escaped?_of_mem h]

/-- A unit is read up to its last digit, which decides what comes of it. -/
theorem unit_readTextFrom (done s : List Char) {first : Option Nat} {next : TextState}
    {o : Option Char} (hu : UnitText n u) (hf : finishHex first n = .ok (next, o)) :
    readTextFrom (.hex first 0 0) done (u.drop 2 ++ s) =
      readTextFrom next (o.toList ++ done) s := by
  cases hu with
  | digits ha hb hc hd =>
    cases o <;>
      simp [readTextFrom, hexDigit?_of_mem ha, hexDigit?_of_mem hb, hexDigit?_of_mem hc,
        hexDigit?_of_mem hd, hf]

theorem UnitText.eq_cons (hu : UnitText n u) : u = '\\' :: 'u' :: u.drop 2 := by
  cases hu
  rfl

theorem finishHex_char : finishHex none c.toNat = .ok (.plain, some c) := by
  have hv := c.valid
  simp only [UInt32.isValidChar, Nat.isValidChar] at hv
  have hlow : ¬ (0xDC00 ≤ c.toNat ∧ c.toNat ≤ 0xDFFF) := by
    simp only [Char.toNat]
    omega
  have hhigh : ¬ (0xD800 ≤ c.toNat ∧ c.toNat ≤ 0xDBFF) := by
    simp only [Char.toNat]
    omega
  rw [finishHex, if_neg hlow, if_neg hhigh, Char.ofNat_toNat]

theorem finishHex_high (hn : n < 0x400) :
    finishHex none (0xD800 + n) = .ok (.pair (0xD800 + n), none) := by
  rw [finishHex, if_neg (by omega), if_pos (by omega)]

theorem finishHex_low {high low : Nat} (hlow : low < 0x400)
    (hc : c.toNat = 0x10000 + high * 0x400 + low) :
    finishHex (some (0xD800 + high)) (0xDC00 + low) = .ok (.plain, some c) := by
  have hsum : 0x10000 + (0xD800 + high - 0xD800) * 0x400 + (0xDC00 + low - 0xDC00) = c.toNat := by
    omega
  rw [finishHex, if_pos (by omega), hsum, Char.ofNat_toNat]

/-- A text is read up to its closing quote. -/
theorem readTextFrom_spells (h : SpellsText t b) :
    readTextFrom .plain done (b ++ '"' :: rest) = .ok (done.reverse ++ t, rest) := by
  induction h generalizing done with
  | nil => simp [readTextFrom]
  | literal hc _ ih =>
    rw [List.cons_append, literal_readTextFrom hc, ih]
    simp
  | short he _ ih =>
    rw [List.cons_append, List.cons_append, short_readTextFrom he, ih]
    simp
  | @unit c u t s hu _ ih =>
    have hread := unit_readTextFrom done (s ++ '"' :: rest) hu finishHex_char
    rw [hu.eq_cons]
    simp only [List.cons_append, List.append_assoc, readTextFrom, escaped?]
    simpa [ih] using hread
  | @pair c high low u w t s hu hw hhigh hlow hc _ ih =>
    have hfirst := unit_readTextFrom done (w ++ (s ++ '"' :: rest)) hu (finishHex_high hhigh)
    have hsecond := unit_readTextFrom done (s ++ '"' :: rest) hw (finishHex_low hlow hc)
    rw [hw.eq_cons] at hfirst
    rw [hu.eq_cons, hw.eq_cons]
    simp only [List.cons_append, List.append_assoc, readTextFrom, escaped?] at hfirst ⊢
    simp_all

theorem readText_spells {text : String} (h : SpellsText text.toList b) :
    readText (b ++ '"' :: rest) = .ok (text, rest) := by
  rw [readText, readTextFrom_spells h]
  simp [bind, Except.bind]

theorem unit_skipTextFrom (hu : UnitText n u) :
    skipTextFrom .plain (u ++ s) = skipTextFrom .plain s := by
  cases hu with
  | digits ha hb hc hd =>
    simp [skipTextFrom, escaped?, hexDigit?_of_mem ha, hexDigit?_of_mem hb, hexDigit?_of_mem hc,
      hexDigit?_of_mem hd]

/-- A text is skipped up to its closing quote. -/
theorem skipText_wellFormed (h : WellFormedText b) : skipText (b ++ '"' :: rest) = .ok rest := by
  rw [skipText]
  induction h with
  | nil => simp [skipTextFrom]
  | literal hc _ ih =>
    obtain ⟨hq, hb, hl⟩ := hc
    rw [List.cons_append, ← ih]
    simp [skipTextFrom, hq, hb, Nat.not_lt.2 hl]
  | short he _ ih =>
    rw [List.cons_append, List.cons_append, ← ih]
    simp [skipTextFrom, escaped?_of_mem he]
  | unit hu _ ih => rw [List.append_assoc, unit_skipTextFrom hu, ih]

end Texts

section Numbers

/-- No digit of a number comes first, nor a point or an exponent. -/
theorem Delimited.head (h : Delimited rest) (hc : rest.head? = some c) :
    c.isDigit = false ∧ c ≠ '.' ∧ c ≠ 'e' ∧ c ≠ 'E' := by
  have hall : ∀ c ∈ [' ', '\t', '\n', '\r', ',', ']', '}'],
      c.isDigit = false ∧ c ≠ '.' ∧ c ≠ 'e' ∧ c ≠ 'E' := by simp
  exact hall c (h c hc)

variable (atEnd : Fault)

/-- Digits are scanned up to the first character that is none. -/
theorem scanDigits_digits (hd : Digits ds) (hr : ∀ c, rest.head? = some c → c.isDigit = false) :
    scanDigits atEnd (ds ++ rest) = .ok (ds, rest) := by
  have hno : rest.takeWhile Char.isDigit = [] ∧ rest.dropWhile Char.isDigit = rest := by
    cases rest with
    | nil => exact ⟨rfl, rfl⟩
    | cons c rest => simp [hr c rfl]
  have htake : (ds ++ rest).takeWhile Char.isDigit = ds := by
    rw [List.takeWhile_append_of_pos hd.2, hno.1, List.append_nil]
  have hdrop : (ds ++ rest).dropWhile Char.isDigit = rest := by
    rw [List.dropWhile_append_of_pos hd.2, hno.2]
  cases ds with
  | nil => exact absurd rfl hd.1
  | cons d ds =>
    unfold scanDigits
    rw [htake]
    exact congrArg (fun s => Except.ok (d :: ds, s)) hdrop

theorem scanWhole_digits (hd : Digits ds) (hz : ds.head? = some '0' → ds = ['0'])
    (hr : ∀ c, rest.head? = some c → c.isDigit = false) :
    scanWhole atEnd (ds ++ rest) = .ok (ds, rest) := by
  have hscan := scanDigits_digits atEnd hd hr
  unfold scanWhole
  split
  · rename_i c rest' hs
    have hhead : ds.head? = some '0' := by
      cases ds with
      | nil => exact absurd rfl hd.1
      | cons d ds =>
        rw [List.cons_append] at hs
        rw [List.head?_cons, (List.cons.inj hs).1]
    obtain rfl := hz hhead
    obtain rfl : rest = c :: rest' := by simpa using hs
    rw [hr c rfl]
    rfl
  · exact hscan

theorem scanExponent_digits {sign : List Char} {minus : Bool}
    (hs : (sign, minus) ∈ [([], false), (['+'], false), (['-'], true)]) (hd : Digits ds)
    (hr : ∀ c, rest.head? = some c → c.isDigit = false) :
    scanExponent atEnd (sign ++ (ds ++ rest)) = .ok ((minus, ds), rest) := by
  have hscan := scanDigits_digits atEnd hd hr
  simp only [List.mem_cons, Prod.mk.injEq, List.not_mem_nil, or_false] at hs
  rcases hs with ⟨rfl, rfl⟩ | ⟨rfl, rfl⟩ | ⟨rfl, rfl⟩
  · -- without a sign the first character is a digit
    cases ds with
    | nil => exact absurd rfl hd.1
    | cons d ds =>
      have hdigit := hd.2 d (by simp)
      have hminus : d ≠ '-' := by
        rintro rfl
        cases hdigit
      have hplus : d ≠ '+' := by
        rintro rfl
        cases hdigit
      rw [List.nil_append]
      rw [List.cons_append] at hscan ⊢
      rw [scanExponent]
      · rw [hscan]
        rfl
      · intro s hs
        exact hminus (List.cons.inj hs).1
      · intro s hs
        exact hplus (List.cons.inj hs).1
  · rw [List.singleton_append, scanExponent, hscan]
    rfl
  · rw [List.singleton_append, scanExponent, hscan]
    rfl

theorem ExponentText.head {e : List Char} {exponent : Option (Bool × List Char)}
    (he : ExponentText exponent e) (hr : Delimited rest) (hc : (e ++ rest).head? = some c) :
    c.isDigit = false ∧ c ≠ '.' := by
  cases he with
  | absent =>
    obtain ⟨hd, hp, _⟩ := hr.head hc
    exact ⟨hd, hp⟩
  | letter he =>
    have hall : ∀ c ∈ ['e', 'E'], c.isDigit = false ∧ c ≠ '.' := by simp
    obtain rfl := Option.some.inj hc
    exact hall _ he

theorem FractionText.head {e f : List Char} {fraction : Option (List Char)}
    {exponent : Option (Bool × List Char)} (hf : FractionText fraction f)
    (he : ExponentText exponent e) (hr : Delimited rest)
    (hc : (f ++ (e ++ rest)).head? = some c) : c.isDigit = false := by
  cases hf with
  | absent => exact (he.head hr hc).1
  | point =>
    obtain rfl := Option.some.inj hc
    rfl

/-- A number is scanned up to its end. -/
theorem scanSpelling_text {atEnd : Fault} (h : SpellingText p s) (hr : Delimited rest) :
    scanSpelling atEnd (s ++ rest) = .ok (p, rest) := by
  cases h with
  | @parts whole f e fraction exponent hw hz hf he =>
    have hwhole := scanWhole_digits atEnd hw hz fun c hc => hf.head he hr hc
    rw [List.append_assoc, List.append_assoc, scanSpelling, hwhole]
    cases hf with
    | absent =>
      cases he with
      | absent =>
        cases rest with
        | nil => rfl
        | cons c rest =>
          obtain ⟨_, hp, hsmall, hlarge⟩ := hr.head rfl
          simp [bind, Except.bind, hp, hsmall, hlarge]
      | letter hletter hsign hd =>
        have hexp := scanExponent_digits atEnd hsign hd fun c hc => (hr.head hc).1
        simp only [List.mem_cons, List.not_mem_nil, or_false] at hletter
        rcases hletter with rfl | rfl <;> simp [bind, Except.bind, hexp]
    | point hfraction =>
      have hdigits := scanDigits_digits atEnd hfraction fun c hc => (he.head hr hc).1
      cases he with
      | absent =>
        rw [List.nil_append] at hdigits
        cases rest with
        | nil =>
          rw [List.append_nil] at hdigits
          simp [bind, Except.bind, hdigits]
        | cons c rest =>
          obtain ⟨_, _, hsmall, hlarge⟩ := hr.head rfl
          simp [bind, Except.bind, hdigits, hsmall, hlarge]
      | letter hletter hsign hd =>
        have hexp := scanExponent_digits atEnd hsign hd fun c hc => (hr.head hc).1
        simp only [List.cons_append, List.append_assoc] at hdigits
        simp only [List.mem_cons, List.not_mem_nil, or_false] at hletter
        rcases hletter with rfl | rfl <;> simp [bind, Except.bind, hdigits, hexp]

theorem readNumber_text {n : Number} (h : SpellingText p s) (hn : p.number negative = .ok n)
    (hr : Delimited rest) : readNumber negative (s ++ rest) = .ok (n, rest) := by
  simp [readNumber, scanSpelling_text h hr, hn, bind, Except.bind]

theorem skipNumber_text (h : SpellingText p s) (hr : Delimited rest) :
    skipNumber (s ++ rest) = .ok rest := by
  simp [skipNumber, scanSpelling_text h hr, bind, Except.bind]

/-- A number without its sign starts with a digit. -/
theorem SpellingText.head (h : SpellingText p s) : ∃ d t, s = d :: t ∧ d.isDigit = true := by
  cases h with
  | @parts whole f e _ _ hw _ _ _ =>
    cases whole with
    | nil => exact absurd rfl hw.1
    | cons d ds => exact ⟨d, ds ++ (f ++ e), rfl, hw.2 d (by simp)⟩

theorem le_ofDigitChars {k : Nat} : k ≤ Nat.ofDigitChars 10 ds k := by
  rw [Nat.ofDigitChars_eq_ofDigitChars_zero]
  have hpos : 0 < 10 ^ ds.length := Nat.pow_pos (by decide)
  have hle := Nat.le_mul_of_pos_left k hpos
  omega

theorem absorb_eq (ds : List Char) (k : Nat) (h : Nat.ofDigitChars 10 ds k < twoTo 64) :
    absorb k ds = (Nat.ofDigitChars 10 ds k, []) := by
  induction ds generalizing k with
  | nil => rw [absorb, Nat.ofDigitChars_nil]
  | cons c ds ih =>
    rw [Nat.ofDigitChars_cons] at h ⊢
    have hfits : 10 * k + digit c < twoTo 64 := Nat.lt_of_le_of_lt le_ofDigitChars h
    rw [absorb, if_pos hfits]
    exact ih _ h

def decimal (n : Nat) : Spelling := ⟨Nat.toDigits 10 n, none, none⟩

theorem toDigits_eq_cons (hn : 0 < n) : ∃ d ds, Nat.toDigits 10 n = d :: ds ∧ d ≠ '0' := by
  induction n using Nat.strongRecOn with
  | ind n ih =>
    by_cases hlt : n < 10
    · refine ⟨n.digitChar, [], Nat.toDigits_of_lt_base hlt, ?_⟩
      simp only [ne_eq, Nat.digitChar_eq_zero]
      omega
    · have hdiv : 0 < n / 10 := Nat.div_pos (by omega) (by decide)
      obtain ⟨d, ds, hds, hd⟩ := ih (n / 10) (Nat.div_lt_self hn (by decide)) hdiv
      refine ⟨d, ds ++ [(n % 10).digitChar], ?_, hd⟩
      rw [Nat.toDigits_of_base_le (by decide) (by omega), hds, List.cons_append]

theorem decimal_text : SpellingText (decimal n) (Nat.toDigits 10 n) := by
  have hdigits : Digits (Nat.toDigits 10 n) :=
    ⟨Nat.toDigits_ne_nil, fun c hc => Nat.isDigit_of_mem_toDigits (by decide) (by decide) hc⟩
  have hzero : (Nat.toDigits 10 n).head? = some '0' → Nat.toDigits 10 n = ['0'] := by
    intro h
    by_cases hn : 0 < n
    · obtain ⟨d, ds, hds, hd⟩ := toDigits_eq_cons hn
      rw [hds] at h
      exact absurd (Option.some.inj h) hd
    · obtain rfl : n = 0 := by omega
      rfl
  have hparts := SpellingText.parts hdigits hzero .absent .absent
  rw [List.append_nil, List.append_nil] at hparts
  exact hparts

theorem number_decimal (hn : n < twoTo 64) :
    (decimal n).number negative = integerOf negative n := by
  have habsorb := absorb_eq (Nat.toDigits 10 n) 0 (by simpa using hn)
  rw [Nat.ofDigitChars_ten_toDigits] at habsorb
  simp [Spelling.number, decimal, habsorb]

/-- An integer is written with its digits, and a sign if it is negative. -/
theorem toList_toString (i : Int) :
    (∃ n : Nat, i = n ∧ (toString i).toList = Nat.toDigits 10 n) ∨
    ∃ n : Nat, 0 < n ∧ i = -n ∧ (toString i).toList = '-' :: Nat.toDigits 10 n := by
  by_cases hi : 0 ≤ i
  · left
    refine ⟨i.toNat, by omega, ?_⟩
    rw [Int.toString_eq_repr, Int.repr_eq_if, if_pos hi, Nat.toList_repr]
  · right
    refine ⟨(-i).toNat, by omega, by omega, ?_⟩
    rw [Int.toString_eq_repr, Int.repr_eq_if, if_neg hi, String.toList_append, Nat.toList_repr]
    rfl

end Numbers

end AnalyzerBridge.Json
