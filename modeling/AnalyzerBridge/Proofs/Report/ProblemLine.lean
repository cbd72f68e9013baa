import AnalyzerBridge.Proofs.Text.Pieces
import AnalyzerBridge.Report.ProblemLine

/-! Which lines give problems. A line does exactly if it is cut at its first marker, and before that
at its first bracket, into four fields that can be read; there is at most one such cut. Any other
line is refused for the first of its flaws. -/
namespace AnalyzerBridge

namespace Text

variable {s : List Char} {n bound : Nat}

/-- A numeral with this value: decimal digits, perhaps with a plus sign before them. -/
def Numeral (s : List Char) (n : Nat) : Prop :=
  ∃ digits, (s = digits ∨ s = '+' :: digits) ∧ digits ≠ [] ∧ (∀ c ∈ digits, c.isDigit = true) ∧
    Nat.ofDigitChars 10 digits 0 = n

/-- Only digits have a value. -/
theorem isDigit_of_digitsValue? (h : digitsValue? s = some n) : ∀ c ∈ s, c.isDigit = true := by
  suffices hfold : ∀ k n, s.foldlM (fun n (c : Char) =>
      if c.isDigit then some (10 * n + (c.toNat - '0'.toNat)) else none) k = some n →
      ∀ c ∈ s, c.isDigit = true from hfold 0 n h
  clear h
  induction s with
  | nil => simp
  | cons c s ih =>
    intro k n h d hd
    rw [List.foldlM_cons] at h
    split at h
    · rename_i hc
      rcases List.mem_cons.1 hd with rfl | hd
      · exact hc
      · exact ih _ n h d hd
    · cases h

theorem digitsValue?_eq_some :
    digitsValue? s = some n ↔ (∀ c ∈ s, c.isDigit = true) ∧ Nat.ofDigitChars 10 s 0 = n := by
  constructor
  · intro h
    have hs := isDigit_of_digitsValue? h
    rw [digitsValue?_eq hs] at h
    exact ⟨hs, Option.some.inj h⟩
  · rintro ⟨hs, rfl⟩
    exact digitsValue?_eq hs

theorem numeral?_digits {c : Char} (hc : c ≠ '+') : numeral? bound (c :: s) = some n ↔
    ((∀ d ∈ c :: s, d.isDigit = true) ∧ Nat.ofDigitChars 10 (c :: s) 0 = n) ∧ n < bound := by
  simp [numeral?, hc, Option.filter_eq_some_iff, digitsValue?_eq_some]

theorem numeral?_plus : numeral? bound ('+' :: s) = some n ↔
    (s ≠ [] ∧ (∀ d ∈ s, d.isDigit = true) ∧ Nat.ofDigitChars 10 s 0 = n) ∧ n < bound := by
  cases s with
  | nil => simp [numeral?]
  | cons c s => simp [numeral?, Option.filter_eq_some_iff, digitsValue?_eq_some]

/-- Exactly the numerals below the bound are read. -/
theorem numeral?_eq_some : numeral? bound s = some n ↔ Numeral s n ∧ n < bound := by
  cases s with
  | nil => simp [numeral?, Numeral]
  | cons c s =>
    by_cases hc : c = '+'
    · subst hc
      rw [numeral?_plus]
      refine and_congr_left fun _ => ⟨fun h => ⟨s, Or.inr rfl, h⟩, ?_⟩
      rintro ⟨digits, rfl | hs, h⟩
      · -- a plus sign is no digit
        exact absurd (h.2.1 '+' (by simp)) (by decide)
      · obtain rfl := (List.cons.inj hs).2
        exact h
    · rw [numeral?_digits hc]
      refine and_congr_left fun _ => ⟨fun h => ⟨c :: s, Or.inl rfl, by simp, h⟩, ?_⟩
      rintro ⟨digits, rfl | hs, h⟩
      · exact h.2
      · exact absurd (List.cons.inj hs).1 hc

theorem Numeral.unique {m : Nat} (h : Numeral s n) (h' : Numeral s m) : n = m := by
  have hn := numeral?_eq_some.2 ⟨h, Nat.lt_succ_of_le (Nat.le_max_left n m)⟩
  have hm := numeral?_eq_some.2 ⟨h', Nat.lt_succ_of_le (Nat.le_max_right n m)⟩
  exact Option.some.inj (hn.symm.trans hm)

theorem length_splitComma : (splitComma s).length = s.count ',' + 1 := by
  induction s with
  | nil => rfl
  | cons c s ih =>
    rw [splitComma, List.count_cons]
    by_cases hc : c = ','
    · simp [hc, ih]
    · cases hs : splitComma s with
      | nil => exact absurd hs (splitComma_ne_nil s)
      | cons f fs =>
        rw [hs] at ih
        simpa [hc] using ih

/-- No field has a comma, and with commas between them the fields give the text back. -/
theorem splitComma_eq_cons {f : List Char} {fs : List (List Char)} : splitComma s = f :: fs ↔
    ',' ∉ f ∧ (fs = [] ∧ s = f ∨ ∃ t, s = f ++ ',' :: t ∧ splitComma t = fs) := by
  constructor
  · intro h
    induction s generalizing f with
    | nil =>
      cases h
      exact ⟨by simp, Or.inl ⟨rfl, rfl⟩⟩
    | cons c s ih =>
      rw [splitComma] at h
      split at h
      · rename_i hc
        cases h
        exact ⟨by simp, Or.inr ⟨s, by simp [hc], rfl⟩⟩
      · rename_i hc
        split at h
        · rename_i hs
          exact absurd hs (splitComma_ne_nil s)
        · rename_i g gs hs
          cases h
          obtain ⟨hg, hrest⟩ := ih hs
          refine ⟨by simp [Ne.symm hc, hg], ?_⟩
          rcases hrest with ⟨hnil, rfl⟩ | ⟨t, rfl, ht⟩
          · exact Or.inl ⟨hnil, rfl⟩
          · exact Or.inr ⟨t, rfl, ht⟩
  · rintro ⟨hf, ⟨rfl, rfl⟩ | ⟨t, rfl, ht⟩⟩
    · exact splitComma_self hf
    · rw [splitComma_field hf, ht]

end Text

namespace ProblemLine

variable {s t header before inside rest : List Char} {l : ProblemLine} {f g : Fault}

section Marker

def marker : List Char := [']', ':']

/-- What stands before the first marker is split off. -/
theorem splitMarker_append (h : ¬ marker <:+: s) :
    splitMarker (s ++ ']' :: ':' :: t) = some (s, t) := by
  induction s with
  | nil => rfl
  | cons c s ih =>
    have hs : ¬ marker <:+: s := fun hs => h (List.infix_cons hs)
    have hno : ∀ rest, c = ']' → s ++ ']' :: ':' :: t = ':' :: rest → False := by
      rintro rest rfl heq
      cases s with
      | nil => cases heq
      | cons d s =>
        obtain ⟨rfl, _⟩ := List.cons.inj heq
        exact h ⟨[], s, rfl⟩
    rw [List.cons_append, splitMarker, ih hs]
    · rfl
    · exact hno

theorem splitMarker_eq_none : splitMarker s = none ↔ ¬ marker <:+: s := by
  fun_induction splitMarker s with
  | case1 => simp [marker]
  | case2 s =>
    have hm : marker <:+: ']' :: ':' :: s := ⟨[], s, rfl⟩
    simp [hm]
  | case3 c s hno ih =>
    rw [Option.map_eq_none_iff, ih, not_iff_not, List.infix_cons_iff]
    constructor
    · exact Or.inr
    · rintro (⟨rest, heq⟩ | h)
      · obtain ⟨rfl, rfl⟩ := List.cons.inj heq
        exact absurd rfl (hno rest rfl)
      · exact h

theorem splitMarker_eq_some :
    splitMarker s = some (header, rest) ↔ s = header ++ ']' :: ':' :: rest ∧ ¬ marker <:+: header := by
  constructor
  · intro h
    fun_induction splitMarker s generalizing header with
    | case1 => cases h
    | case2 s =>
      cases h
      exact ⟨rfl, by simp [marker]⟩
    | case3 c s hno ih =>
      obtain ⟨⟨a, b⟩, hab, heq⟩ := Option.map_eq_some_iff.1 h
      cases heq
      obtain ⟨rfl, ha⟩ := ih hab
      refine ⟨rfl, ?_⟩
      rw [List.infix_cons_iff]
      rintro (⟨t, heq⟩ | hinfix)
      · obtain ⟨rfl, rfl⟩ := List.cons.inj heq
        exact hno _ rfl rfl
      · exact ha hinfix
  · rintro ⟨rfl, h⟩
    exact splitMarker_append h

theorem afterBracket_eq_none : afterBracket s = none ↔ '[' ∉ s := by
  induction s with
  | nil => simp [afterBracket]
  | cons c s ih =>
    rw [afterBracket]
    by_cases hc : c = '['
    · simp [hc]
    · simp [hc, ih, Ne.symm hc]

theorem afterBracket_eq_some :
    afterBracket s = some inside ↔ ∃ before, s = before ++ '[' :: inside ∧ '[' ∉ before := by
  constructor
  · intro h
    induction s with
    | nil => cases h
    | cons c s ih =>
      rw [afterBracket] at h
      by_cases hc : c = '['
      · rw [if_pos hc] at h
        cases h
        exact ⟨[], by simp [hc], by simp⟩
      · rw [if_neg hc] at h
        obtain ⟨before, rfl, hb⟩ := ih h
        exact ⟨c :: before, rfl, by simp [Ne.symm hc, hb]⟩
  · rintro ⟨before, rfl, hb⟩
    induction before with
    | nil => rfl
    | cons c before ih =>
      obtain ⟨hc, hb⟩ : '[' ≠ c ∧ '[' ∉ before := by simpa using hb
      rw [List.cons_append, afterBracket, if_neg (Ne.symm hc)]
      exact ih hb

end Marker

section Cuts

/-- A line that is cut at its first marker, and before that at its first bracket. -/
structure Cut (s before inside rest : List Char) : Prop where
  text : s = before ++ '[' :: (inside ++ marker ++ rest)
  firstMarker : ¬ marker <:+: before ++ '[' :: inside
  firstBracket : '[' ∉ before

theorem Cut.splitMarker (h : Cut s before inside rest) :
    splitMarker s = some (before ++ '[' :: inside, rest) := by
  refine splitMarker_eq_some.2 ⟨?_, h.firstMarker⟩
  simp [h.text, marker]

theorem Cut.afterBracket (h : Cut s before inside rest) :
    afterBracket (before ++ '[' :: inside) = some inside :=
  afterBracket_eq_some.2 ⟨before, rfl, h.firstBracket⟩

theorem cut_of_some (hs : splitMarker s = some (header, rest))
    (hi : afterBracket header = some inside) : ∃ before, Cut s before inside rest := by
  obtain ⟨rfl, hm⟩ := splitMarker_eq_some.1 hs
  obtain ⟨before, rfl, hb⟩ := afterBracket_eq_some.1 hi
  exact ⟨before, by simp [marker], hm, hb⟩

/-- A line can be cut in one way only. -/
theorem Cut.unique {before' inside' rest' : List Char} (h : Cut s before inside rest)
    (h' : Cut s before' inside' rest') : before = before' ∧ inside = inside' ∧ rest = rest' := by
  have hsplit := h.splitMarker.symm.trans h'.splitMarker
  obtain ⟨hheader, rfl⟩ := Prod.mk.inj (Option.some.inj hsplit)
  have hafter := h.afterBracket
  rw [hheader, h'.afterBracket] at hafter
  obtain rfl := Option.some.inj hafter
  exact ⟨List.append_cancel_right hheader, rfl, rfl⟩

structure Pieces where
  before : List Char
  code : List Char
  line : List Char
  column : List Char
  length : List Char
  rest : List Char

namespace Pieces

variable {p q : Pieces}

def fields (p : Pieces) : List Char :=
  p.code ++ ',' :: (p.line ++ ',' :: (p.column ++ ',' :: p.length))

/-- The line is cut into these pieces, and no field has a comma. -/
structure Of (p : Pieces) (s : List Char) : Prop where
  cut : Cut s p.before p.fields p.rest
  code : ',' ∉ p.code
  line : ',' ∉ p.line
  column : ',' ∉ p.column
  length : ',' ∉ p.length

theorem Of.splitComma (h : p.Of s) :
    Text.splitComma p.fields = [p.code, p.line, p.column, p.length] := by
  rw [fields, Text.splitComma_field h.code, Text.splitComma_field h.line,
    Text.splitComma_field h.column, Text.splitComma_self h.length]

theorem Of.unique (hp : p.Of s) (hq : q.Of s) : p = q := by
  obtain ⟨hbefore, hinside, hrest⟩ := hp.cut.unique hq.cut
  have hfields := hp.splitComma
  rw [hinside, hq.splitComma] at hfields
  cases p
  cases q
  simp_all

/-- A line with three commas between bracket and marker has such pieces. -/
theorem exists_of (h : Cut s before inside rest) (hcount : inside.count ',' + 1 = 4) :
    ∃ p : Pieces, p.Of s := by
  have hfour := (Text.length_splitComma (s := inside)).trans hcount
  obtain ⟨code, line, column, length, hfields⟩ := List.length_eq_four.1 hfour
  obtain ⟨hcode, ⟨hno, _⟩ | ⟨t, ht, hfields⟩⟩ := Text.splitComma_eq_cons.1 hfields
  · cases hno
  obtain ⟨hline, ⟨hno, _⟩ | ⟨u, hu, hfields⟩⟩ := Text.splitComma_eq_cons.1 hfields
  · cases hno
  obtain ⟨hcolumn, ⟨hno, _⟩ | ⟨w, hw, hfields⟩⟩ := Text.splitComma_eq_cons.1 hfields
  · cases hno
  obtain ⟨hlength, ⟨_, hx⟩ | ⟨x, _, hno⟩⟩ := Text.splitComma_eq_cons.1 hfields
  · subst ht hu hw hx
    exact ⟨⟨before, code, line, column, w, rest⟩, h, hcode, hline, hcolumn, hlength⟩
  · exact absurd hno (Text.splitComma_ne_nil x)

theorem Of.count (h : p.Of s) : p.fields.count ',' + 1 = 4 := by
  rw [← Text.length_splitComma, h.splitComma]
  rfl

end Pieces

end Cuts

section Fields

variable {p : Pieces} {field : String} {value : List Char} {n : UInt32}

theorem number_eq_ok : number field value = .ok n ↔ Text.Numeral value n.toNat := by
  have hread : ∀ k, Text.numeral? (twoTo 32) value = some k ↔ Text.Numeral value k ∧ k < twoTo 32 :=
    fun k => Text.numeral?_eq_some
  rw [number]
  cases hn : Text.numeral? (twoTo 32) value with
  | none =>
    have hno : ¬ Text.Numeral value n.toNat := fun h => by
      rw [(hread n.toNat).2 ⟨h, n.toNat_lt⟩] at hn
      cases hn
    simp [hno]
  | some k =>
    obtain ⟨hk, hlt⟩ := (hread k).1 hn
    rw [Except.ok.injEq]
    constructor
    · rintro rfl
      rwa [UInt32.toNat_ofNat_of_lt' hlt]
    · intro h
      rw [hk.unique h, UInt32.ofNat_toNat]

theorem number_eq_error : number field value = .error f ↔
    (∀ n : UInt32, ¬ Text.Numeral value n.toNat) ∧ f = .badNumber field (String.ofList value) := by
  cases hn : number field value with
  | ok n => simpa using fun hno => absurd (number_eq_ok.1 hn) (hno n)
  | error g =>
    have hno : ∀ n : UInt32, ¬ Text.Numeral value n.toNat := fun n h => by
      rw [number_eq_ok.2 h] at hn
      cases hn
    rw [number] at hn
    split at hn
    · cases hn
    · cases hn
      simp [hno, eq_comm]

namespace Pieces

structure Means (p : Pieces) (l : ProblemLine) : Prop where
  code : Text.trim p.code = l.code.toList
  codeGiven : l.code ≠ ""
  line : Text.Numeral (Text.trim p.line) l.line.toNat
  lineGiven : 1 ≤ l.line
  column : Text.Numeral (Text.trim p.column) l.column.toNat
  length : Text.Numeral (Text.trim p.length) l.length.toNat
  message : Text.trim p.rest = l.message.toList

/-- What may be wrong with the fields of a line. -/
inductive Flaw (p : Pieces) : Fault → Prop
  | code : Text.trim p.code = [] → Flaw p .emptyCode
  | line : (∀ n : UInt32, ¬ Text.Numeral (Text.trim p.line) n.toNat) →
      Flaw p (.badNumber "line" (String.ofList (Text.trim p.line)))
  | zeroLine : Text.Numeral (Text.trim p.line) 0 → Flaw p .zeroLine
  | column : (∀ n : UInt32, ¬ Text.Numeral (Text.trim p.column) n.toNat) →
      Flaw p (.badNumber "column" (String.ofList (Text.trim p.column)))
  | length : (∀ n : UInt32, ¬ Text.Numeral (Text.trim p.length) n.toNat) →
      Flaw p (.badNumber "length" (String.ofList (Text.trim p.length)))

/-- Reads the pieces one after the other. -/
def read (p : Pieces) : Except Fault ProblemLine := do
  if (Text.trim p.code).isEmpty then .error .emptyCode
  let line ← number "line" (Text.trim p.line)
  if line = 0 then .error .zeroLine
  let column ← number "column" (Text.trim p.column)
  let length ← number "length" (Text.trim p.length)
  .ok ⟨String.ofList (Text.trim p.code), line, column, length, String.ofList (Text.trim p.rest)⟩

theorem Of.ofText (h : p.Of s) : ofText s = p.read := by
  simp only [ProblemLine.ofText, h.cut.splitMarker, h.cut.afterBracket, h.splitComma, List.map_cons,
    List.map_nil]
  rfl

end Pieces

/-- The place of a fault in the order in which faults are looked for. -/
def Fault.rank : Fault → Nat
  | noMarker => 0
  | noBracket => 1
  | fieldCount _ => 2
  | emptyCode => 3
  | badNumber field _ => if field = "line" then 4 else if field = "column" then 6 else 7
  | zeroLine => 5

/-- What may be wrong with a line. -/
inductive Flaw (s : List Char) : Fault → Prop
  | noMarker : ¬ marker <:+: s → Flaw s .noMarker
  | noBracket {header rest : List Char} : s = header ++ marker ++ rest → ¬ marker <:+: header →
      '[' ∉ header → Flaw s .noBracket
  | fieldCount {before inside rest : List Char} : Cut s before inside rest →
      inside.count ',' + 1 ≠ 4 → Flaw s (.fieldCount (inside.count ',' + 1))
  | pieces {p : Pieces} {f : Fault} : p.Of s → p.Flaw f → Flaw s f

end Fields

section Reading

variable {p : Pieces}

namespace Pieces

theorem Means.unique {l' : ProblemLine} (h : p.Means l) (h' : p.Means l') : l = l' := by
  have hcode := String.toList_inj.1 (h.code.symm.trans h'.code)
  have hline := UInt32.toNat_inj.1 (h.line.unique h'.line)
  have hcolumn := UInt32.toNat_inj.1 (h.column.unique h'.column)
  have hlength := UInt32.toNat_inj.1 (h.length.unique h'.length)
  have hmessage := String.toList_inj.1 (h.message.symm.trans h'.message)
  cases l
  cases l'
  simp_all

/-- Pieces that mean a problem have no flaw. -/
theorem Means.not_flaw (h : p.Means l) : ¬ p.Flaw f := by
  intro hf
  cases hf with
  | code hc =>
    apply h.codeGiven
    apply String.toList_inj.1
    rw [← h.code, hc]
    rfl
  | line hno => exact hno _ h.line
  | zeroLine hzero =>
    have hpos := UInt32.le_iff_toNat_le.1 h.lineGiven
    rw [h.line.unique hzero] at hpos
    exact absurd hpos (by decide)
  | column hno => exact hno _ h.column
  | length hno => exact hno _ h.length

def First (p : Pieces) (f : Fault) : Prop :=
  p.Flaw f ∧ ∀ g, p.Flaw g → f.rank ≤ g.rank

/-- The pieces are read, or refused for their first flaw. -/
theorem read_cases (p : Pieces) : (∃ l, p.read = .ok l ∧ p.Means l) ∨
    ∃ f, p.read = .error f ∧ p.First f := by
  by_cases hcode : Text.trim p.code = []
  · refine Or.inr ⟨.emptyCode, by simp [read, hcode, bind, Except.bind], .code hcode, ?_⟩
    intro g hg
    cases hg <;> simp [Fault.rank]
  have hgiven : (Text.trim p.code).isEmpty = false := by simp [hcode]
  cases hline : number "line" (Text.trim p.line) with
  | error f =>
    obtain ⟨hno, rfl⟩ := number_eq_error.1 hline
    refine Or.inr ⟨_, by simp [read, hgiven, hline, bind, Except.bind], .line hno, ?_⟩
    intro g hg
    cases hg with
    | code hc => exact absurd hc hcode
    | _ => simp [Fault.rank]
  | ok line =>
    have hvalue := number_eq_ok.1 hline
    by_cases hzero : line = 0
    · subst hzero
      refine Or.inr ⟨_, by simp [read, hgiven, hline, bind, Except.bind], .zeroLine hvalue, ?_⟩
      intro g hg
      cases hg with
      | code hc => exact absurd hc hcode
      | line hno => exact absurd hvalue (hno 0)
      | _ => simp [Fault.rank]
    have hnot : ¬ Text.Numeral (Text.trim p.line) 0 := fun h =>
      hzero (UInt32.toNat_inj.1 (hvalue.unique h))
    cases hcolumn : number "column" (Text.trim p.column) with
    | error f =>
      obtain ⟨hno, rfl⟩ := number_eq_error.1 hcolumn
      refine Or.inr ⟨_, by simp [read, hgiven, hline, hzero, hcolumn, bind, Except.bind],
        .column hno, ?_⟩
      intro g hg
      cases hg with
      | code hc => exact absurd hc hcode
      | line hno => exact absurd hvalue (hno _)
      | zeroLine h => exact absurd h hnot
      | _ => simp [Fault.rank]
    | ok column =>
      have hcolumnValue := number_eq_ok.1 hcolumn
      cases hlength : number "length" (Text.trim p.length) with
      | error f =>
        obtain ⟨hno, rfl⟩ := number_eq_error.1 hlength
        refine Or.inr ⟨_, by simp [read, hgiven, hline, hzero, hcolumn, hlength, bind, Except.bind],
          .length hno, ?_⟩
        intro g hg
        cases hg with
        | code hc => exact absurd hc hcode
        | line hno => exact absurd hvalue (hno _)
        | zeroLine h => exact absurd h hnot
        | column hno => exact absurd hcolumnValue (hno _)
        | length => exact Nat.le_refl _
      | ok length =>
        refine Or.inl ⟨⟨String.ofList (Text.trim p.code), line, column, length,
          String.ofList (Text.trim p.rest)⟩, ?_, ?_⟩
        · simp [read, hgiven, hline, hzero, hcolumn, hlength, bind, Except.bind]
        constructor
        · simp
        · simp [hcode]
        · exact hvalue
        · exact UInt32.le_iff_toNat_le.2 (Nat.pos_of_ne_zero fun h => hzero (UInt32.toNat_inj.1 h))
        · exact hcolumnValue
        · exact number_eq_ok.1 hlength
        · simp

end Pieces

/-- What is wrong with a line that has pieces is wrong with its fields. -/
theorem flaw_iff (hp : p.Of s) : Flaw s f ↔ p.Flaw f := by
  constructor
  · intro hf
    cases hf with
    | noMarker hno =>
      have hsplit := hp.cut.splitMarker
      rw [splitMarker_eq_none.2 hno] at hsplit
      cases hsplit
    | @noBracket header rest hs hm hno =>
      have hsplit := splitMarker_eq_some.2 ⟨by simpa [marker] using hs, hm⟩
      obtain ⟨rfl, _⟩ := Prod.mk.inj (Option.some.inj (hsplit.symm.trans hp.cut.splitMarker))
      simp at hno
    | fieldCount hcut hcount =>
      obtain ⟨_, rfl, _⟩ := hp.cut.unique hcut
      exact absurd hp.count hcount
    | pieces hq hf =>
      rwa [hp.unique hq]
  · exact .pieces hp

def First (s : List Char) (f : Fault) : Prop :=
  Flaw s f ∧ ∀ g, Flaw s g → f.rank ≤ g.rank

theorem Pieces.Flaw.three_le_rank (h : p.Flaw f) : 3 ≤ f.rank := by
  cases h <;> simp [Fault.rank]

theorem Cut.ofText (h : Cut s before inside rest) (hcount : inside.count ',' + 1 ≠ 4) :
    ofText s = .error (.fieldCount (inside.count ',' + 1)) := by
  have hlength : ((Text.splitComma inside).map Text.trim).length = inside.count ',' + 1 := by
    rw [List.length_map, Text.length_splitComma]
  simp only [ProblemLine.ofText, h.splitMarker, h.afterBracket]
  split
  · rename_i hfields
    rw [hfields] at hlength
    exact absurd hlength.symm hcount
  · rw [hlength]

/-- Each fault has a place of its own, and a line has each flaw in one way only. -/
theorem Flaw.eq_of_rank (hf : Flaw s f) (hg : Flaw s g) (h : f.rank = g.rank) : f = g := by
  have hpieces : ∀ {f g : Fault} {p : Pieces}, p.Of s → p.Flaw f → Flaw s g → f.rank = g.rank →
      f = g := by
    intro f g p hp hf hg h
    have hg := (flaw_iff hp).1 hg
    cases hf <;> cases hg <;> simp [Fault.rank] at h ⊢
  cases hf with
  | pieces hp hf => exact hpieces hp hf hg h
  | noMarker =>
    cases hg with
    | noMarker => rfl
    | pieces hp hg => exact (hpieces hp hg (.noMarker ‹_›) h.symm).symm
    | _ => cases h
  | noBracket =>
    cases hg with
    | noBracket => rfl
    | pieces hp hg => exact (hpieces hp hg (.noBracket ‹_› ‹_› ‹_›) h.symm).symm
    | _ => cases h
  | fieldCount hcut hcount =>
    cases hg with
    | fieldCount hcut' =>
      obtain ⟨_, rfl, _⟩ := hcut.unique hcut'
      rfl
    | pieces hp hg => exact (hpieces hp hg (.fieldCount hcut hcount) h.symm).symm
    | _ => cases h

/-- A line is read, or refused for its first flaw. -/
theorem ofText_cases (s : List Char) :
    (∃ (p : Pieces) (l : ProblemLine), p.Of s ∧ p.Means l ∧ ofText s = .ok l) ∨
      ∃ f, First s f ∧ ofText s = .error f := by
  cases hs : splitMarker s with
  | none =>
    refine Or.inr ⟨.noMarker, ⟨.noMarker (splitMarker_eq_none.1 hs), fun _ _ => Nat.zero_le _⟩, ?_⟩
    simp [ofText, hs]
  | some x =>
    obtain ⟨header, rest⟩ := x
    obtain ⟨htext, hm⟩ := splitMarker_eq_some.1 hs
    have hmarker : ¬ Flaw s .noMarker := by
      intro hg
      cases hg with
      | noMarker hnone =>
        rw [splitMarker_eq_none.2 hnone] at hs
        cases hs
      | pieces _ hf => cases hf
    cases hi : afterBracket header with
    | none =>
      have hno := afterBracket_eq_none.1 hi
      refine Or.inr ⟨.noBracket, ⟨.noBracket (by simpa [marker] using htext) hm hno, ?_⟩, ?_⟩
      · intro g hg
        cases hg with
        | noMarker hnone => exact absurd (.noMarker hnone) hmarker
        | pieces _ hf => exact Nat.le_of_succ_le (Nat.le_of_succ_le hf.three_le_rank)
        | _ => simp [Fault.rank]
      · simp [ofText, hs, hi]
    | some inside =>
      obtain ⟨before, hcut⟩ := cut_of_some hs hi
      by_cases hcount : inside.count ',' + 1 = 4
      · obtain ⟨p, hp⟩ := Pieces.exists_of hcut hcount
        rw [hp.ofText]
        rcases p.read_cases with ⟨l, hl, hmeans⟩ | ⟨f, hf, hflaw, hfirst⟩
        · exact Or.inl ⟨p, l, hp, hmeans, hl⟩
        · refine Or.inr ⟨f, ⟨.pieces hp hflaw, ?_⟩, hf⟩
          intro g hg
          exact hfirst g ((flaw_iff hp).1 hg)
      · refine Or.inr ⟨_, ⟨.fieldCount hcut hcount, ?_⟩, ?_⟩
        · intro g hg
          cases hg with
          | noMarker hnone => exact absurd (.noMarker hnone) hmarker
          | noBracket hs' hm' hno =>
            have hsplit := splitMarker_eq_some.2 ⟨by simpa [marker] using hs', hm'⟩
            obtain ⟨rfl, _⟩ := Prod.mk.inj (Option.some.inj (hs.symm.trans hsplit))
            rw [afterBracket_eq_none.2 hno] at hi
            cases hi
          | fieldCount => exact Nat.le_refl _
          | pieces _ hf => exact Nat.le_of_succ_le hf.three_le_rank
        · exact hcut.ofText hcount

/-- The pieces of a line decide what comes of it. It is read exactly if they mean a problem, and then
as this problem; it has such pieces in one way only; and it is refused exactly for its first flaw. -/
theorem ofText_decided (s : List Char) :
    (∀ l, ofText s = .ok l ↔ ∃ p : Pieces, p.Of s ∧ p.Means l) ∧
    (∀ p q : Pieces, p.Of s → q.Of s → p = q) ∧
    ∀ f, ofText s = .error f ↔ Flaw s f ∧ ∀ g, Flaw s g → f.rank ≤ g.rank := by
  refine ⟨fun l => ⟨fun h => ?_, ?_⟩, fun p q => Pieces.Of.unique, fun f => ⟨fun h => ?_, ?_⟩⟩
  · rcases ofText_cases s with ⟨p, l', hp, hmeans, hl⟩ | ⟨f, _, hf⟩
    · obtain rfl := Except.ok.inj (hl.symm.trans h)
      exact ⟨p, hp, hmeans⟩
    · rw [hf] at h
      cases h
  · rintro ⟨p, hp, hmeans⟩
    rcases ofText_cases s with ⟨q, l', hq, hmeans', hl⟩ | ⟨f, ⟨hflaw, _⟩, _⟩
    · obtain rfl := hp.unique hq
      rw [hl, hmeans.unique hmeans']
    · exact absurd ((flaw_iff hp).1 hflaw) hmeans.not_flaw
  · rcases ofText_cases s with ⟨_, l, _, _, hl⟩ | ⟨g, hfirst, hg⟩
    · rw [hl] at h
      cases h
    · obtain rfl := Except.error.inj (hg.symm.trans h)
      exact hfirst
  · rintro ⟨hflaw, hfirst⟩
    rcases ofText_cases s with ⟨p, l, hp, hmeans, _⟩ | ⟨g, ⟨hflaw', hfirst'⟩, hg⟩
    · exact absurd ((flaw_iff hp).1 hflaw) hmeans.not_flaw
    · have hrank := Nat.le_antisymm (hfirst g hflaw') (hfirst' f hflaw)
      rw [hg, hflaw.eq_of_rank hflaw' hrank]

/-- A line whose code and message hold brackets and a marker. -/
def nestedLine : List Char := "x [ E[1 ,+03, 4,5]: a]: [b".toList

def nestedPieces : Pieces where
  before := "x ".toList
  code := " E[1 ".toList
  line := "+03".toList
  column := " 4".toList
  length := "5".toList
  rest := " a]: [b".toList

theorem nestedPieces_of : nestedPieces.Of nestedLine where
  cut := ⟨by decide, by decide, by decide⟩
  code := by decide
  line := by decide
  column := by decide
  length := by decide

theorem nestedPieces_means : nestedPieces.Means ⟨"E[1", 3, 4, 5, "a]: [b"⟩ where
  code := by decide
  codeGiven := by decide
  line := ⟨['0', '3'], Or.inr (by decide), by decide, by simp, by decide⟩
  lineGiven := by decide
  column := ⟨['4'], Or.inl (by decide), by decide, by simp, by decide⟩
  length := ⟨['5'], Or.inl (by decide), by decide, by simp, by decide⟩
  message := by decide

/-- The line with brackets is read, in one way only; and of two flaws the first one is named. -/
theorem ofText_decided_nested :
    ofText nestedLine = .ok ⟨"E[1", 3, 4, 5, "a]: [b"⟩ ∧
    (∀ q : Pieces, q.Of nestedLine → q = nestedPieces) ∧
    ∀ g, Flaw "[E1, 0, x, 1]: text".toList g → Fault.zeroLine.rank ≤ g.rank := by
  refine ⟨?_, ?_, ?_⟩
  · exact ((ofText_decided nestedLine).1 _).2 ⟨_, nestedPieces_of, nestedPieces_means⟩
  · intro q hq
    exact (ofText_decided nestedLine).2.1 q nestedPieces hq nestedPieces_of
  · exact (((ofText_decided "[E1, 0, x, 1]: text".toList).2.2 .zeroLine).1 (by decide)).2

end Reading

end ProblemLine

end AnalyzerBridge
