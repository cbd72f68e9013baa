import AnalyzerBridge.Settings.Basic

/-!
The live runs of one purpose: at most one for each key. Every registration carries a generation, so
that a run which reports back late is told apart from the one that took its place.
-/

namespace AnalyzerBridge.Run

/-- What a run serves: a document, and a purpose. -/
structure Key where
  uri : String
  purpose : Purpose
deriving DecidableEq, Repr, Inhabited

/-- A registered run with the request that it serves. -/
structure Registration (α : Type) where
  key : Key
  generation : Nat
  run : Nat
  context : α
deriving Repr

/-- The registered runs, and the generation that was given out last. -/
structure Registry (α : Type) where
  entries : List (Registration α)
  issued : Nat
deriving Repr

namespace Registry

variable {α : Type}

def empty : Registry α :=
  ⟨[], 0⟩

variable (r : Registry α) (key : Key)

def find? : Option (Registration α) :=
  r.entries.find? (·.key = key)

def erase : Registry α :=
  { r with entries := r.entries.filter (·.key ≠ key) }

/-- The generation that the next registration gets. -/
def next : Nat :=
  r.issued + 1

/-- Takes the key from the run that had it, and gives it to a new one, if that was started. The
generation is used up in both cases. -/
def replace (context : α) (run : Option Nat) : Registry α :=
  let rest := r.erase key
  { entries := match run with
      | none => rest.entries
      | some run => rest.entries ++ [⟨key, r.next, run, context⟩]
    issued := r.next }

/-- Is this the generation that is registered for the key? -/
def isCurrent (generation : Nat) : Bool :=
  (r.find? key).any (·.generation == generation)

/-- The registration of a run that reports back, and the registry without it; a run that is not
current changes nothing. -/
def complete (generation : Nat) : Registry α × Option (Registration α) :=
  if r.isCurrent key generation then (r.erase key, r.find? key) else (r, none)

def contains : Bool :=
  (r.find? key).isSome

def size : Nat :=
  r.entries.length

def isEmpty : Bool :=
  r.entries.isEmpty

def clear : Registry α :=
  { r with entries := [] }

def holds (run : Nat) : Bool :=
  r.entries.any (·.run == run)

end Registry

end AnalyzerBridge.Run
