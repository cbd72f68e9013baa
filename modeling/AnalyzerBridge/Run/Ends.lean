import AnalyzerBridge.Run.Channel
import AnalyzerBridge.Run.Pair

/-!
The two ends of a run, with the two channels between them: one carries the wish to stop to the
driver, the other one the outcome to the holder.
-/

namespace AnalyzerBridge.Run

/-- The holder's end. Waiting takes it over, and what waits can still be dropped. -/
inductive Holder where
  | whole
  | waiting
  | gone
deriving DecidableEq, Repr

structure Ends where
  holder : Holder
  driver : Bool
  stop : Channel Unit
  outcome : Channel Outcome
  seen : Bool
deriving DecidableEq, Repr

namespace Ends

/-- What is asked of the holder's end, and what is asked of the driver's end. -/
inductive Request where
  | cancel
  | drop
  | wait
  | isCancelled
  | cancelled
  | finish (outcome : Outcome)
  | dropDriver
deriving DecidableEq, Repr

/-- What a request is answered; `broken` if it looks where nothing can be found any more. -/
inductive Answer where
  | done
  | said (yes : Bool)
  | pending
  | resolved
  | outcome (outcome : Outcome)
  | broken
deriving DecidableEq, Repr

/-- What happens upon a request: looks for the wish to stop, and the answer. -/
inductive Exchange where
  | looked (look : Look Unit)
  | answered (request : Request) (answer : Answer)
deriving DecidableEq, Repr

def begin : Ends :=
  ⟨.whole, true, .fresh, .fresh, false⟩

variable (e : Ends)

/-- Is the end there that is asked? -/
def serves : Request → Bool
  | .cancel => e.holder = .whole
  | .drop | .wait => e.holder ≠ .gone
  | .isCancelled | .cancelled | .finish _ | .dropDriver => e.driver

def cancel : Ends :=
  { e with
    stop := match e.stop.sender with
      | .held => (e.stop.send ()).1
      | _ => e.stop }

def drop : Ends :=
  { e with holder := .gone, stop := e.stop.dropSender, outcome := e.outcome.dropReceiver }

/-- The holder looks for the outcome, and is gone once it has it. -/
def wait : Ends × Answer :=
  match e.outcome.look with
  | (outcome, .pending) => ({ e with holder := .waiting, outcome }, .pending)
  | (outcome, .received o) => (drop { e with outcome }, .outcome o)
  | (outcome, .closed) => (drop { e with outcome }, .outcome .abandoned)
  | (outcome, .spent) => ({ e with outcome }, .broken)

/-- The driver looks for the wish to stop, until it has seen it. -/
def heed : Ends × List (Look Unit) :=
  if e.seen then (e, []) else
    let (stop, look) := e.stop.look
    ({ e with stop, seen := look ≠ .pending }, [look])

/-- What the driver hears that waits for the wish to stop. -/
def heard (looks : List (Look Unit)) : Answer :=
  if .spent ∈ looks then .broken else if e.seen then .resolved else .pending

/-- The driver's end goes away, after it has used its channel for the outcome. -/
def leave (outcome : Channel Outcome) : Ends :=
  { e with driver := false, stop := e.stop.dropReceiver, outcome }

/-- What a request does whose end is there. -/
def serve (r : Request) : Ends × List Exchange :=
  match r with
  | .cancel => (e.cancel, [.answered r .done])
  | .drop => (e.drop, [.answered r .done])
  | .wait =>
    let (e, answer) := e.wait
    (e, [.answered r answer])
  | .isCancelled =>
    let (e, looks) := e.heed
    (e, looks.map .looked ++ [.answered r (.said e.seen)])
  | .cancelled =>
    let (e, looks) := e.heed
    (e, looks.map .looked ++ [.answered r (e.heard looks)])
  | .finish o =>
    let (outcome, taken) := e.outcome.send o
    (e.leave outcome, [.answered r (.said taken)])
  | .dropDriver => (e.leave e.outcome.dropSender, [.answered r .done])

/-- What a request does: nothing if its end is no longer there. -/
def step (r : Request) : Ends × List Exchange :=
  if e.serves r then e.serve r else (e, [])

end Ends

end AnalyzerBridge.Run
