import AnalyzerBridge.Text.Blank
import AnalyzerBridge.Text.Utf8

/-!
How the run of an analyzer ends.
-/

namespace AnalyzerBridge

/-- The end of a run. Only a completed run has output. -/
inductive Outcome where
  | completed (output : String)
  | empty
  | failed (reason : String)
  | cancelled
  | timedOut
deriving DecidableEq, Repr, Inhabited

namespace Outcome

/-- The end of a run with the bytes that it wrote. Blanks alone count as nothing written. -/
def ofBytes (bytes : List UInt8) : Outcome :=
  let text := Text.Utf8.decodeLossy bytes
  if text.all Text.isBlank then .empty else .completed (String.ofList text)

def output? : Outcome → Option String
  | completed s => some s
  | _ => none

/-- The end of a run whose driver vanished. -/
def abandoned : Outcome :=
  .failed "analyzer driver went away"

end Outcome

end AnalyzerBridge
