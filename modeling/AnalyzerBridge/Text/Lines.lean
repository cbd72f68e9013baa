/-!
Texts as lines. A line is its content and the characters that end it; the last line has no ending.
`splitLines` loses nothing: the texts of the lines in order give the whole text back.
-/

namespace AnalyzerBridge.Text

/-- One line: what it holds, and the break that ends it (empty on the last line). -/
structure Line where
  content : List Char
  ending : List Char
deriving DecidableEq, Repr

/-- The line with its break. -/
def Line.text (l : Line) : List Char :=
  l.content ++ l.ending

/-- The lines of a text. A carriage return before a line feed is one break with it; otherwise a
break is a character in `stops`. -/
def splitLines (stops : Char → Bool) : List Char → List Line
  | [] => [⟨[], []⟩]
  | '\r' :: '\n' :: s => ⟨[], ['\r', '\n']⟩ :: splitLines stops s
  | c :: s =>
    if stops c then ⟨[], [c]⟩ :: splitLines stops s
    else match splitLines stops s with
      | [] => [⟨[c], []⟩]
      | l :: ls => ⟨c :: l.content, l.ending⟩ :: ls

def isFeed (c : Char) : Bool :=
  c == '\n'

/-- The breaks of the language-server protocol. -/
def isProtocolBreak (c : Char) : Bool :=
  c == '\n' || c == '\r'

/-- The mandatory breaks of Unicode line breaking. -/
def isUnicodeBreak (c : Char) : Bool :=
  (0x0A ≤ c.toNat && c.toNat ≤ 0x0D) || c.toNat == 0x85 || c.toNat == 0x2028 || c.toNat == 0x2029

variable {stops : Char → Bool} {s : List Char}

theorem splitLines_ne_nil : splitLines stops s ≠ [] := by
  fun_induction splitLines stops s <;> simp

/-- No character is lost. -/
theorem flatMap_text_splitLines : (splitLines stops s).flatMap Line.text = s := by
  fun_induction splitLines stops s with
  | case1 => rfl
  | case2 s ih => simp [Line.text, ih]
  | case3 c s _ _ ih => simp [Line.text, ih]
  | case4 c s _ _ h => exact absurd h splitLines_ne_nil
  | case5 c s _ _ l ls h ih => rw [h] at ih; simpa [Line.text] using ih

end AnalyzerBridge.Text
