import AnalyzerBridge.Run.Outcome

/-!
How a run goes on. The input is written and the output collected; once both are done, the analyzer
has a short time to leave, after which its output counts anyway. Cancellation and the time limit
may come in between. `Phase.take` says what follows if one of the things that are ready is taken.
-/

namespace AnalyzerBridge.Run

/-- How a program leaves: with an exit code, or by a signal, which may have its memory dumped. -/
inductive Exit where
  | code (n : Nat)
  | signal (n : Nat) (dumped : Bool)
deriving DecidableEq, Repr, Inhabited

/-- The names of the signals, from number 1 on. -/
def signalNames : List String :=
  ["SIGHUP", "SIGINT", "SIGQUIT", "SIGILL", "SIGTRAP", "SIGABRT", "SIGBUS", "SIGFPE", "SIGKILL",
    "SIGUSR1", "SIGSEGV", "SIGUSR2", "SIGPIPE", "SIGALRM", "SIGTERM", "SIGSTKFLT", "SIGCHLD",
    "SIGCONT", "SIGSTOP", "SIGTSTP", "SIGTTIN", "SIGTTOU", "SIGURG", "SIGXCPU", "SIGXFSZ",
    "SIGVTALRM", "SIGPROF", "SIGWINCH", "SIGIO", "SIGPWR", "SIGSYS"]

def describeSignal (n : Nat) (dumped : Bool) : String :=
  "signal: " ++ toString n ++
    (match signalNames[n - 1]? with
      | some name => " (" ++ name ++ ")"
      | none => "") ++
    if dumped then " (core dumped)" else ""

/-- What has come about so far. A failure to read the output, or to wait for the exit, has a
reason. -/
structure Ready where
  cancelled : Bool
  limitOver : Bool
  written : Bool
  output : Option (Except String (List UInt8))
  exit : Option (Except String Exit)
  graceOver : Bool

/-- The things that a run waits for. -/
inductive Branch where
  | cancelled
  | exchanged
  | left
  | limitOver
  | graceOver
deriving DecidableEq, Repr

/-- Where a run stands. -/
inductive Phase where
  | exchanging
  | lingering (output : List UInt8)
  | ended (outcome : Outcome)
deriving DecidableEq, Repr

/-- The end of a run that has written everything and then left. -/
def outcomeOfExit (output : List UInt8) : Except String Exit → Outcome
  | .ok (.code _) => .ofBytes output
  | .ok (.signal n dumped) =>
    .failed ("analyzer terminated abnormally (" ++ describeSignal n dumped ++ ")")
  | .error reason => .failed ("waiting for analyzer: " ++ reason)

/-- The phase after a branch is taken, if it is ready and the phase waits for it. -/
def Phase.take (r : Ready) : Phase → Branch → Option Phase
  | .exchanging, .cancelled | .lingering _, .cancelled =>
    if r.cancelled then some (.ended .cancelled) else none
  | .exchanging, .limitOver => if r.limitOver then some (.ended .timedOut) else none
  | .exchanging, .exchanged =>
    if r.written then r.output.map fun
      | .ok output => .lingering output
      | .error reason => .ended (.failed ("reading analyzer output: " ++ reason))
    else none
  | .lingering output, .left => r.exit.map fun exit => .ended (outcomeOfExit output exit)
  | .lingering output, .limitOver =>
    if r.limitOver then some (.ended (.ofBytes output)) else none
  | .lingering output, .graceOver =>
    if r.graceOver then some (.ended (.ofBytes output)) else none
  | _, _ => none

/-- All branches, in the order in which they are tried where several are ready at once. -/
def Branch.all : List Branch :=
  [.cancelled, .exchanged, .left, .limitOver, .graceOver]

def Phase.next? (r : Ready) (p : Phase) : Option Phase :=
  Branch.all.findSome? (p.take r)

/-- How long an analyzer may stay after its output has ended, in milliseconds. -/
def exitGrace : Nat := 500

/-- When a program takes its whole input or stops reading, when its output ends and with which
bytes, and when and how it leaves; in milliseconds from its start, if ever. -/
structure Timeline where
  written : Option Nat
  output : Option (Nat × List UInt8)
  exit : Option (Nat × Exit)
deriving DecidableEq, Repr

/-- The times at which a run may be interrupted from outside. -/
structure Bounds where
  limit : Option Nat
  cancelAt : Option Nat
deriving DecidableEq, Repr

namespace Timeline

variable (t : Timeline) (b : Bounds)

def reached (at_ : Option Nat) (now : Nat) : Bool :=
  at_.any (· ≤ now)

/-- What has come about at a time, for a run that lingers since `since`. -/
def ready (since : Option Nat) (now : Nat) : Ready where
  cancelled := reached b.cancelAt now
  limitOver := reached b.limit now
  written := reached t.written now
  output := (t.output.filter (·.1 ≤ now)).map (.ok ·.2)
  exit := (t.exit.filter (·.1 ≤ now)).map (.ok ·.2)
  graceOver := reached (since.map (· + exitGrace)) now

/-- The times at which something comes about, in order. -/
def instants (since : Option Nat) : List Nat :=
  ([b.cancelAt, b.limit, t.written, t.output.map (·.1), t.exit.map (·.1),
    since.map (· + exitGrace), since].filterMap id).mergeSort

/-- The first of some times at which a phase goes on, and the next phase. -/
def firstMove (ready : Nat → Ready) (p : Phase) : List Nat → Option (Nat × Phase)
  | [] => none
  | now :: rest =>
    match p.next? (ready now) with
    | some q => some (now, q)
    | none => firstMove ready p rest

/-- When and how the run ends, if it ever does. -/
def ending : Option (Nat × Outcome) :=
  match firstMove (t.ready b none) .exchanging (t.instants b none) with
  | some (now, .ended o) => some (now, o)
  | some (now, p) =>
    let later := (t.instants b (some now)).filter (now ≤ ·)
    match firstMove (t.ready b (some now)) p later with
    | some (later, .ended o) => some (later, o)
    | _ => none
  | none => none

end Timeline

end AnalyzerBridge.Run
