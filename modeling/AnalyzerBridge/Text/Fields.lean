/-!
Texts as fields between commas.
-/

namespace AnalyzerBridge.Text

/-- The fields between the commas of a text. -/
def splitComma : List Char → List (List Char)
  | [] => [[]]
  | c :: s =>
    if c = ',' then [] :: splitComma s
    else match splitComma s with
      | [] => [[c]]
      | f :: fs => (c :: f) :: fs

theorem splitComma_ne_nil (s : List Char) : splitComma s ≠ [] := by
  fun_induction splitComma s <;> simp

end AnalyzerBridge.Text
