import AnalyzerBridge.Json.Reader

/-! How JSON is written. `WellFormed` says what a text of JSON is, and `Spells` which value a text
has, both with a bound on the brackets that are open at once. Any spaces and any escapes are
allowed. -/
namespace AnalyzerBridge.Json

/-- Spaces, perhaps none. -/
def Gap (g : List Char) : Prop := ∀ c ∈ g, c ∈ [' ', '\t', '\n', '\r']

/-- The hexadecimal digits and their values. -/
def hexDigits : List (Char × Nat) := [
  ('0', 0), ('1', 1), ('2', 2), ('3', 3), ('4', 4), ('5', 5), ('6', 6), ('7', 7), ('8', 8), ('9', 9),
  ('a', 10), ('b', 11), ('c', 12), ('d', 13), ('e', 14), ('f', 15),
  ('A', 10), ('B', 11), ('C', 12), ('D', 13), ('E', 14), ('F', 15)]

/-- What may follow a backslash, and the character that is meant. -/
def shortEscapes : List (Char × Char) := [
  ('"', '"'), ('\\', '\\'), ('/', '/'), ('b', '\x08'), ('f', '\x0c'), ('n', '\n'),
  ('r', '\r'), ('t', '\t')]

/-- A character that stands for itself between quotes. -/
def Literal (c : Char) : Prop := c ≠ '"' ∧ c ≠ '\\' ∧ 0x20 ≤ c.toNat

instance {c : Char} : Decidable (Literal c) := inferInstanceAs (Decidable (_ ∧ _ ∧ _))

/-- The escape of a number of 16 bits. -/
inductive UnitText : Nat → List Char → Prop
  | digits {a b c d : Char} {i j k l : Nat} : (a, i) ∈ hexDigits → (b, j) ∈ hexDigits →
      (c, k) ∈ hexDigits → (d, l) ∈ hexDigits →
      UnitText (16 * (16 * (16 * i + j) + k) + l) ['\\', 'u', a, b, c, d]

/-- What may stand between quotes. -/
inductive WellFormedText : List Char → Prop
  | nil : WellFormedText []
  | literal {c : Char} {s : List Char} : Literal c → WellFormedText s → WellFormedText (c :: s)
  | short {e c : Char} {s : List Char} : (e, c) ∈ shortEscapes → WellFormedText s →
      WellFormedText ('\\' :: e :: s)
  | unit {n : Nat} {u s : List Char} : UnitText n u → WellFormedText s → WellFormedText (u ++ s)

/-- What stands between quotes, and the characters that are meant. Those from U+10000 on may be
written as two units. -/
inductive SpellsText : List Char → List Char → Prop
  | nil : SpellsText [] []
  | literal {c : Char} {t s : List Char} : Literal c → SpellsText t s → SpellsText (c :: t) (c :: s)
  | short {e c : Char} {t s : List Char} : (e, c) ∈ shortEscapes → SpellsText t s →
      SpellsText (c :: t) ('\\' :: e :: s)
  | unit {c : Char} {u t s : List Char} : UnitText c.toNat u → SpellsText t s →
      SpellsText (c :: t) (u ++ s)
  | pair {c : Char} {high low : Nat} {u w t s : List Char} : UnitText (0xD800 + high) u →
      UnitText (0xDC00 + low) w → high < 0x400 → low < 0x400 →
      c.toNat = 0x10000 + high * 0x400 + low → SpellsText t s → SpellsText (c :: t) (u ++ (w ++ s))

/-- At least one decimal digit. -/
def Digits (ds : List Char) : Prop := ds ≠ [] ∧ ∀ c ∈ ds, c.isDigit = true

/-- A fraction with its point, if there is one. -/
inductive FractionText : Option (List Char) → List Char → Prop
  | absent : FractionText none []
  | point {ds : List Char} : Digits ds → FractionText (some ds) ('.' :: ds)

/-- An exponent with its letter and its sign, if there is one. -/
inductive ExponentText : Option (Bool × List Char) → List Char → Prop
  | absent : ExponentText none []
  | letter {e : Char} {sign ds : List Char} {minus : Bool} : e ∈ ['e', 'E'] →
      (sign, minus) ∈ [([], false), (['+'], false), (['-'], true)] → Digits ds →
      ExponentText (some (minus, ds)) (e :: (sign ++ ds))

/-- A number without its sign. No zero stands before another digit. -/
inductive SpellingText : Spelling → List Char → Prop
  | parts {whole f e : List Char} {fraction : Option (List Char)}
      {exponent : Option (Bool × List Char)} : Digits whole →
      (whole.head? = some '0' → whole = ['0']) → FractionText fraction f →
      ExponentText exponent e → SpellingText ⟨whole, fraction, exponent⟩ (whole ++ (f ++ e))

/-- A number, perhaps with a minus sign. -/
inductive NumberText : Bool → Spelling → List Char → Prop
  | plain {p : Spelling} {s : List Char} : SpellingText p s → NumberText false p s
  | minus {p : Spelling} {s : List Char} : SpellingText p s → NumberText true p ('-' :: s)

/-- Texts that open no bracket. -/
inductive WellFormedScalar : List Char → Prop
  | word {w : String} : w ∈ ["null", "true", "false"] → WellFormedScalar w.toList
  | number {negative : Bool} {p : Spelling} {s : List Char} : NumberText negative p s →
      WellFormedScalar s
  | text {b : List Char} : WellFormedText b → WellFormedScalar ('"' :: (b ++ ['"']))

/-- The values of texts that open no bracket. Integers of 64 bits are written in decimal. -/
inductive SpellsScalar : Json → List Char → Prop
  | null : SpellsScalar .null "null".toList
  | yes : SpellsScalar (.bool true) "true".toList
  | no : SpellsScalar (.bool false) "false".toList
  | int {n : Int} : -(twoTo 63 : Int) ≤ n → n < twoTo 64 → SpellsScalar (.int n) (toString n).toList
  | real {negative : Bool} {p : Spelling} {x : Binary64} {s : List Char} :
      NumberText negative p s → p.number negative = .ok (.real x) →
      SpellsScalar (.number (.real x)) s
  | text {t : String} {b : List Char} : SpellsText t.toList b →
      SpellsScalar (.text t) ('"' :: (b ++ ['"']))

section
variable {α ν : Type}

/-- What stands after an opening bracket: parts with commas between them, and the closing bracket.
The flag says that no part stands before. -/
inductive Inside (close : Char) (P : α → List Char → Prop) : Bool → List α → List Char → Prop
  | close {first : Bool} {g : List Char} : Gap g → Inside close P first [] (g ++ [close])
  | first {a : α} {as : List α} {g s t : List Char} : Gap g → P a s → Inside close P false as t →
      Inside close P true (a :: as) (g ++ (s ++ t))
  | next {a : α} {as : List α} {g h s t : List Char} : Gap g → Gap h → P a s →
      Inside close P false as t → Inside close P false (a :: as) (g ++ ',' :: (h ++ (s ++ t)))

/-- A member of an object: its name, a colon, and its value. -/
inductive MemberText (N : ν → List Char → Prop) (P : α → List Char → Prop) :
    ν × α → List Char → Prop
  | pair {k : ν} {a : α} {b g h s : List Char} : N k b → Gap g → Gap h → P a s →
      MemberText N P (k, a) ('"' :: (b ++ '"' :: (g ++ ':' :: (h ++ s))))

inductive ListText (P : α → List Char → Prop) : List α → List Char → Prop
  | items {as : List α} {t : List Char} : Inside ']' P true as t → ListText P as ('[' :: t)

inductive ObjectText (N : ν → List Char → Prop) (P : α → List Char → Prop) :
    List (ν × α) → List Char → Prop
  | members {ms : List (ν × α)} {t : List Char} : Inside '}' (MemberText N P) true ms t →
      ObjectText N P ms ('{' :: t)

end

def SpellsName (name : String) (b : List Char) : Prop := SpellsText name.toList b

/-- The texts of JSON that have at most so many brackets open at once. -/
def WellFormed : Nat → List Char → Prop
  | 0, s => WellFormedScalar s
  | levels + 1, s => WellFormedScalar s ∨
    (∃ items, ListText (fun _ : Unit => WellFormed levels) items s) ∨
    ∃ members, ObjectText (fun _ : Unit => WellFormedText) (fun _ : Unit => WellFormed levels)
      members s

/-- The values of texts that have at most so many brackets open at once. -/
def Spells : Nat → Json → List Char → Prop
  | 0, v, s => SpellsScalar v s
  | levels + 1, v, s => SpellsScalar v s ∨
    (∃ items, v = .list items ∧ ListText (Spells levels) items s) ∨
    ∃ members, v = .object members ∧ ObjectText SpellsName (Spells levels) members s

theorem gap_nil : Gap [] := nofun

theorem spells_scalar {levels : Nat} {v : Json} {s : List Char} (h : SpellsScalar v s) :
    Spells levels v s := by
  cases levels with
  | zero => exact h
  | succ levels => exact Or.inl h

/-- Without special characters a text is written as it is. -/
theorem spellsText_self {t : List Char} (h : t.all (Literal ·) = true) : SpellsText t t := by
  induction t with
  | nil => exact .nil
  | cons c t ih =>
    rw [List.all_cons, Bool.and_eq_true] at h
    exact .literal (of_decide_eq_true h.1) (ih h.2)

/-- A member with such a name, without spaces. -/
theorem memberText_self {α : Type} {P : α → List Char → Prop} {a : α} (name : String)
    (s : List Char) (hn : name.toList.all (Literal ·) = true) (h : P a s) :
    MemberText SpellsName P (name, a)
      ('"' :: (name.toList ++ '"' :: ([] ++ ':' :: ([] ++ s)))) :=
  .pair (spellsText_self hn) gap_nil gap_nil h

end AnalyzerBridge.Json
