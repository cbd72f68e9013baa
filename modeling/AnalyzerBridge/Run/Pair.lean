import AnalyzerBridge.Run.Outcome

/-!
The two sides of a run. The holder may ask it to stop and waits for its end; the driver hears of
that and delivers the end. A holder that goes away counts as one that asks to stop.
-/

namespace AnalyzerBridge.Run

/-- What the driver's side has done so far. -/
inductive DriverSide where
  | driving
  | delivered (outcome : Outcome)
  | gone
deriving DecidableEq, Repr

/-- Both sides of a run. -/
structure Pair where
  held : Bool
  stopAsked : Bool
  driver : DriverSide
deriving DecidableEq, Repr

namespace Pair

def begin : Pair :=
  ⟨true, false, .driving⟩

variable (p : Pair)

def cancel : Pair :=
  { p with stopAsked := p.stopAsked || p.held }

def drop : Pair :=
  { p with held := false }

def isCancelled : Bool :=
  p.stopAsked || !p.held

/-- The driver delivers the end, and hears whether the holder is there. -/
def finish (o : Outcome) : Pair × Bool :=
  match p.driver with
  | .driving => ({ p with driver := if p.held then .delivered o else .gone }, p.held)
  | _ => (p, false)

def dropDriver : Pair :=
  match p.driver with
  | .driving => { p with driver := .gone }
  | _ => p

/-- What the holder gets when it waits, unless the driver is still at work. -/
def awaited? : Option Outcome :=
  match p.driver with
  | .driving => none
  | .delivered o => some o
  | .gone => some .abandoned

end Pair

end AnalyzerBridge.Run
