import AnalyzerBridge.Run.Pair
import AnalyzerBridge.Run.Progress

/-!
The driver of a run. It feeds the input to the analyzer and collects the output, waits as
`Phase.take` says, stops the analyzer where that is needed, and delivers the end of the run to its
holder.
-/

namespace AnalyzerBridge.Run

/-- What happens while a run is driven. The holder, the clock and the analyzer go their own way; the
driver serves the pipes, looks at what it waits for, and collects an analyzer that it has stopped.
-/
inductive DriverEvent where
  | stopAsked
  | dropped
  | limitPassed
  | gracePassed
  | patiencePassed
  | left (exit : Except String Exit)
  | fed (count : Nat)
  | refused
  | read (bytes : List UInt8)
  | outputEnded
  | readFailed (reason : String)
  | looked (branch : Branch)
  | reaped

inductive DriverEffect where
  | took (branch : Branch)
  | interrupted
  | killed
  | delivered (outcome : Outcome) (heard : Bool)
deriving DecidableEq, Repr

/-- What was done to an analyzer that has to leave before the end of its run is delivered. -/
inductive Stopping where
  | interrupted
  | killed
deriving DecidableEq, Repr

/-- What has come about so far. The pipes matter only until the exchange is over. -/
structure Seen where
  limitOver : Bool
  graceOver : Bool
  /-- The input that is not yet taken. -/
  unfed : List UInt8
  /-- Nobody reads the input any more. -/
  refused : Bool
  collected : List UInt8
  outputEnd : Option (Except String Unit)
  exit : Option (Except String Exit)

structure Driver where
  pair : Pair
  limited : Bool
  phase : Phase
  stopping : Option Stopping
  seen : Seen

namespace Driver

/-- A driver that begins with some input, with or without a time limit. -/
def begin (input : List UInt8) (limited : Bool) : Driver where
  pair := .begin
  limited := limited
  phase := .exchanging
  stopping := none
  seen := ⟨false, false, input, false, [], none, none⟩

variable (d : Driver)

/-- Does the analyzer linger after the end of its output? -/
def isLingering : Bool :=
  match d.phase with
  | .lingering _ => true
  | _ => false

/-- Is all input taken, or will none be taken any more? -/
def isFed : Bool :=
  d.seen.refused || d.seen.unfed.isEmpty

def ready : Ready where
  cancelled := d.pair.isCancelled
  limitOver := d.seen.limitOver
  written := d.isFed
  output := d.seen.outputEnd.map fun ending => ending.map fun _ => d.seen.collected
  exit := d.seen.exit
  graceOver := d.seen.graceOver

/-- What comes about by an event. The first end of the output counts, and the first exit. -/
def note : DriverEvent → Driver
  | .stopAsked => { d with pair := d.pair.cancel }
  | .dropped => { d with pair := d.pair.drop }
  | .limitPassed => { d with seen.limitOver := d.seen.limitOver || d.limited }
  | .gracePassed => { d with seen.graceOver := d.seen.graceOver || d.isLingering }
  | .left exit => { d with seen.exit := d.seen.exit.or (some exit) }
  | .fed count => { d with seen.unfed := d.seen.unfed.drop count }
  | .refused => { d with seen.refused := true }
  | .read bytes =>
    { d with seen.collected := d.seen.collected ++ if d.seen.outputEnd.isNone then bytes else [] }
  | .outputEnded => { d with seen.outputEnd := d.seen.outputEnd.or (some (.ok ())) }
  | .readFailed reason => { d with seen.outputEnd := d.seen.outputEnd.or (some (.error reason)) }
  | .patiencePassed | .looked _ | .reaped => d

def deliver (o : Outcome) : Driver × List DriverEffect :=
  let (pair, heard) := d.pair.finish o
  ({ d with pair := pair, stopping := none }, [.delivered o heard])

/-- Goes on to a phase. A run that was asked to stop is interrupted, and one whose time is over is
killed; their ends wait until the analyzer has left. Every other end is delivered at once, and an
analyzer that was not seen to leave is killed. -/
def enter (b : Branch) (p : Phase) : Driver × List DriverEffect :=
  let d := { d with phase := p }
  match p with
  | .exchanging | .lingering _ => (d, [.took b])
  | .ended .cancelled => ({ d with stopping := some .interrupted }, [.took b, .interrupted])
  | .ended .timedOut => ({ d with stopping := some .killed }, [.took b, .killed])
  | .ended o =>
    let (d, delivery) := d.deliver o
    (d, .took b :: (if b = .left then [] else [.killed]) ++ delivery)

/-- Takes a branch, if it is ready and the driver waits for it. -/
def take (b : Branch) : Driver × List DriverEffect :=
  match d.phase.take d.ready b with
  | none => (d, [])
  | some p => d.enter b p

def losePatience : Driver × List DriverEffect :=
  match d.stopping, d.seen.exit with
  | some .interrupted, none => ({ d with stopping := some .killed }, [.killed])
  | _, _ => (d, [])

def reap : Driver × List DriverEffect :=
  match d.stopping, d.seen.exit, d.phase with
  | some _, some _, .ended o => d.deliver o
  | _, _, _ => (d, [])

/-- What the driver does at an event. While it serves the pipes, it sees at once when the exchange
is over. -/
def act : DriverEvent → Driver × List DriverEffect
  | .fed _ | .refused | .read _ | .outputEnded | .readFailed _ => d.take .exchanged
  | .looked b => d.take b
  | .patiencePassed => d.losePatience
  | .reaped => d.reap
  | .stopAsked | .dropped | .limitPassed | .gracePassed | .left _ => (d, [])

/-- The driver after an event, and what it did. -/
def step (e : DriverEvent) : Driver × List DriverEffect :=
  (d.note e).act e

end Driver

end AnalyzerBridge.Run
