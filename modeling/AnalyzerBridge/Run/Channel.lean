/-!
A channel for one value. Its sending end is used up by the value, its receiving end by the look
that finds out what became of the sending end.
-/

namespace AnalyzerBridge.Run

/-- What became of the sending end. -/
inductive Sender (α : Type) where
  | held
  | sent (value : α)
  | dropped
deriving DecidableEq, Repr

/-- What became of the receiving end. -/
inductive Receiver where
  | listening
  | resolved
  | gone
deriving DecidableEq, Repr

/-- What a look at the receiving end finds; `spent` if an earlier look has found out already. -/
inductive Look (α : Type) where
  | pending
  | received (value : α)
  | closed
  | spent
deriving DecidableEq, Repr

structure Channel (α : Type) where
  sender : Sender α
  receiver : Receiver
deriving DecidableEq, Repr

namespace Channel

variable {α : Type} (c : Channel α)

def fresh : Channel α :=
  ⟨.held, .listening⟩

/-- Sends the value, and tells whether anybody can receive it. -/
def send (value : α) : Channel α × Bool :=
  match c.receiver with
  | .gone => ({ c with sender := .dropped }, false)
  | _ => ({ c with sender := .sent value }, true)

/-- The sending end goes away, without a value if none was sent. -/
def dropSender : Channel α :=
  match c.sender with
  | .held => { c with sender := .dropped }
  | _ => c

def dropReceiver : Channel α :=
  { c with receiver := .gone }

/-- Looks for the value without waiting for it. -/
def look : Channel α × Look α :=
  match c.receiver, c.sender with
  | .listening, .held => (c, .pending)
  | .listening, .sent value => ({ c with receiver := .resolved }, .received value)
  | .listening, .dropped => ({ c with receiver := .resolved }, .closed)
  | _, _ => (c, .spent)

end Channel

end AnalyzerBridge.Run
