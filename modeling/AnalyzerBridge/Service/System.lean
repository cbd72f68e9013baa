import AnalyzerBridge.Service.Basic

/-!
The service with its runs, and with what waits for it. Commands are handled in the order in which
they are sent. A run is live from its start until it ends or its driver vanishes; its end then waits
until the service looks at it, which may take any time.
-/

namespace AnalyzerBridge

open Run

/-- A run that has not ended. -/
structure LiveRun where
  run : Nat
  key : Key
  generation : Nat
deriving DecidableEq, Repr

/-- The service, its live runs, and those of them that it has let go. -/
structure System where
  service : Service
  live : List LiveRun
  released : List Nat
  /-- What was sent and is not yet handled, in its order. -/
  commands : List Command
  /-- The ends of runs at which the service has not yet looked. -/
  ends : List Completion

/-- What may happen to a system. -/
inductive Event where
  | sent (c : Command)
  | taken (starts : Invocation → Bool)
  | hungUp
  | ended (run : Nat) (o : Outcome)
  | attended (place : Nat)

namespace System

def initial (settings : Settings) : System :=
  ⟨.initial settings, [], [], [], []⟩

def note (s : System) : Effect → System
  | .started run key generation _ _ => { s with live := s.live ++ [⟨run, key, generation⟩] }
  | .released run => { s with released := run :: s.released }
  | _ => s

def after (s : System) (step : Service × List Effect) : System × List Effect :=
  (step.2.foldl note { s with service := step.1 }, step.2)

/-- Sends a command. After the service has ended, it is dropped. -/
def send (c : Command) (s : System) : System × List Effect :=
  if s.service.running then ({ s with commands := s.commands ++ [c] }, []) else (s, c.dropped)

/-- The service handles the command that was sent first. If it ends by that, those behind are
dropped. -/
def take (starts : Invocation → Bool) (s : System) : System × List Effect :=
  match s.commands with
  | [] => (s, [])
  | c :: rest =>
    let (service, effects) := s.service.handle starts c
    if service.running then { s with commands := rest }.after (service, effects)
    else { s with commands := [] }.after (service, effects ++ rest.flatMap Command.dropped)

/-- Nobody is left to send commands: the service ends, once all are handled. -/
def hangUp (s : System) : System × List Effect :=
  if s.commands.isEmpty then s.after (s.service.handle (fun _ => false) .shutdown) else (s, [])

def find? (s : System) (run : Nat) : Option LiveRun :=
  s.live.find? (·.run == run)

/-- A run ends, and its end waits; nothing happens if it is not live. -/
def conclude (run : Nat) (o : Outcome) (s : System) : System :=
  match s.find? run with
  | none => s
  | some l =>
    { s with
      live := s.live.filter (·.run ≠ run)
      ends := s.ends ++ [⟨l.key, l.generation, o⟩] }

/-- The service looks at one of the ends that wait. -/
def attend (place : Nat) (s : System) : System × List Effect :=
  match s.ends[place]? with
  | none => (s, [])
  | some c => { s with ends := s.ends.eraseIdx place }.after (s.service.complete c)

/-- The system after an event, and what the service did. -/
def step (s : System) : Event → System × List Effect
  | .sent c => s.send c
  | .taken starts => s.take starts
  | .hungUp => s.hangUp
  | .ended run o => (s.conclude run o, [])
  | .attended place => s.attend place

def handle (starts : Invocation → Bool) (s : System) (c : Command) : System × List Effect :=
  let (s, before) := s.send c
  let (s, effects) := s.take starts
  (s, before ++ effects)

def finish (s : System) (run : Nat) (o : Outcome) : System × List Effect :=
  (s.conclude run o).attend s.ends.length

end System

end AnalyzerBridge
