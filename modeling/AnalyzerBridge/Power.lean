/-!
Powers of two, which bound words, and of ten, which scale decimals.
-/

namespace AnalyzerBridge

/-- Two to the power of `k`: the number of words of `k` bits. -/
def twoTo (k : Nat) : Nat :=
  Nat.pow 2 k

def tenTo (k : Nat) : Nat :=
  Nat.pow 10 k

end AnalyzerBridge
