/-!
Shell patterns: a star for any text, and a question mark for any character. Quoted characters stand
for themselves.
-/

namespace AnalyzerBridge.Command

/-- A character of a pattern, with whether it was quoted. -/
abbrev PatternChar := Char × Bool

namespace Pattern

/-- Does the pattern fit the whole text? Each step uses up a character of the pattern or of the
text, so their lengths bound the number of steps. -/
def fitsWithin : Nat → List PatternChar → List Char → Bool
  | 0, _, _ => false
  | _ + 1, [], s => s.isEmpty
  | fuel + 1, ('*', false) :: p, s =>
    fitsWithin fuel p s || match s with
      | [] => false
      | _ :: s => fitsWithin fuel (('*', false) :: p) s
  | fuel + 1, ('?', false) :: p, _ :: s => fitsWithin fuel p s
  | fuel + 1, (a, _) :: p, c :: s => a == c && fitsWithin fuel p s
  | _ + 1, _ :: _, [] => false

def fits (p : List PatternChar) (s : List Char) : Bool :=
  fitsWithin (p.length + s.length + 1) p s

end Pattern

end AnalyzerBridge.Command
