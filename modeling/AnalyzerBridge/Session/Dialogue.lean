import AnalyzerBridge.Host.Programs
import AnalyzerBridge.Session.Server

/-!
A session over time. Runs that the server starts end after the time that their programs take; time
passes only while the editor waits for answers. Of runs that end at the same time, the one that
started first ends first.
-/

namespace AnalyzerBridge.Session

/-- The end of a run that is still to come. -/
structure Ending where
  time : Nat
  run : Nat
  outcome : Outcome
deriving DecidableEq, Repr

/-- A server, the time in milliseconds, the ends of runs to come in their order, and the messages
that the editor has not looked at yet. -/
structure Dialogue where
  server : Server
  time : Nat
  endings : List Ending
  unseen : List Outgoing

namespace Dialogue

def begin (settings : Settings) : Dialogue :=
  ⟨.initial settings, 0, [], []⟩

/-- Puts an end among those to come, after those of the same time. -/
def insert (e : Ending) : List Ending → List Ending
  | [] => [e]
  | f :: rest => if e.time < f.time then e :: f :: rest else f :: insert e rest

def note (d : Dialogue) : Effect → Dialogue
  | .started run _ _ invocation input =>
    match Host.find invocation with
    | .error _ => d
    | .ok program => match Host.ending program invocation input none with
      | none => d
      | some (duration, o) => { d with endings := insert ⟨d.time + duration, run, o⟩ d.endings }
  | .released run => { d with endings := d.endings.filter (·.run ≠ run) }
  | _ => d

def after (d : Dialogue) (step : Server.Step) : Dialogue :=
  step.effects.foldl note
    { d with server := step.server, unseen := d.unseen ++ step.outgoing }

def send (d : Dialogue) (m : Message) : Dialogue :=
  d.after (d.server.receive Host.starts m)

def next? (d : Dialogue) : Option Dialogue :=
  match d.endings with
  | [] => none
  | e :: rest => some ({ d with time := e.time, endings := rest }.after (d.server.finish e.run e.outcome))

/-- Lets up to so many runs end, until the editor has seen enough. -/
def waitWithin (enough : List Outgoing → Bool) : Nat → Dialogue → Dialogue
  | 0, d => d
  | n + 1, d =>
    if enough d.unseen then d
    else match d.next? with
      | none => d
      | some d => waitWithin enough n d

/-- Lets runs end until the editor has seen enough, or none is left. -/
def wait (enough : List Outgoing → Bool) (d : Dialogue) : Dialogue :=
  waitWithin enough d.endings.length d

/-- Do these messages answer all requests, and hold so many notifications? -/
def answersAll (ids : List Json) (notifications : Nat) (out : List Outgoing) : Bool :=
  let answered := (out.filterMap Outgoing.answers?).map Json.compact
  ids.all (fun id => answered.contains id.compact) &&
    notifications ≤ (out.filter Outgoing.isNotification).length

/-- The editor sends messages, and then waits for the answers to its requests and for some
notifications. It looks at all answers, and at the first of the notifications. -/
def exchange (d : Dialogue) (messages : List Message) (notifications : Nat) :
    Dialogue × List Outgoing × List Outgoing :=
  let d := (messages.foldl send d).wait (answersAll (messages.filterMap (·.id)) notifications)
  let (notified, answers) := d.unseen.partition Outgoing.isNotification
  ({ d with unseen := notified.drop notifications }, answers, notified.take notifications)

end Dialogue

end AnalyzerBridge.Session
