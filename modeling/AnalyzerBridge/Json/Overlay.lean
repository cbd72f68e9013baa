import AnalyzerBridge.Json.Basic

/-!
Laying one value over another: members are laid over members of the same name at every depth, and
anything else replaces what was there.
-/

namespace AnalyzerBridge.Json

mutual

/-- The base with the second value laid over it. -/
def overlay : Json → Json → Json
  | .object base, .object layer => .object (overlayMembers base layer)
  | _, layer => layer

/-- Sorted members with others laid over them, one after the other. -/
def overlayMembers (base : List (String × Json)) : List (String × Json) → List (String × Json)
  | [] => base
  | (k, v) :: rest =>
    let laid old := match old with
      | some b => overlay b v
      | none => v
    overlayMembers (put k laid base) rest

end

end AnalyzerBridge.Json
