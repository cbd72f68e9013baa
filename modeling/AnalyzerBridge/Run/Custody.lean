import AnalyzerBridge.Run.Pair
import AnalyzerBridge.Run.Registry

/-!
The registered runs together with their holder's sides. A run's side is kept for as long as the run
is registered. When it is replaced or removed, it is asked to stop and the side goes away; when it
reports back, the side just goes away.
-/

namespace AnalyzerBridge.Run

/-- A registry, with the two sides of every run that was registered, in the order of their start. -/
structure Custody (α : Type) where
  registry : Registry α
  sides : List Pair
deriving Repr

namespace Custody

/-- What is asked for. Whether a run starts is said by what starts it, which hears the generation
and finds the sides of the other runs. -/
inductive Request (α : Type) where
  | replace (key : Key) (context : α) (starts : Nat → List Pair → Bool)
  | complete (key : Key) (generation : Nat)
  | remove (key : Key)
  | cancelAll

/-- What is answered. A refused run did not start, and has used up its generation. -/
inductive Answer (α : Type) where
  | registered (generation : Nat)
  | refused (generation : Nat)
  | completed (context : Option α)
  | removed (any : Bool)
  | cancelled (count : Nat)
deriving DecidableEq, Repr

variable {α : Type}

def empty : Custody α :=
  ⟨.empty, []⟩

/-- Asks a run to stop, and goes away. -/
def abort (p : Pair) : Pair :=
  p.cancel.drop

/-- The sides after something is done to those of registered runs. -/
def upon (f : Pair → Pair) (entries : List (Registration α)) (sides : List Pair) : List Pair :=
  entries.foldl (fun sides e => sides.modify e.run f) sides

variable (c : Custody α) (key : Key)

/-- The run of a key is told to stop and forgotten. -/
def evict : Custody α :=
  ⟨c.registry.erase key, upon abort (c.registry.find? key).toList c.sides⟩

/-- What the start of a new run of a key hears and finds. The old run is evicted by then. -/
def offer : Nat × List Pair :=
  (c.registry.next, (c.evict key).sides)

/-- Takes the key from the run that had it, and gives it to a new one, if that starts. -/
def replace (context : α) (starts : Nat → List Pair → Bool) : Custody α × Answer α :=
  let (generation, sides) := c.offer key
  if starts generation sides then
    (⟨c.registry.replace key context (some sides.length), sides ++ [.begin]⟩,
      .registered generation)
  else (⟨c.registry.replace key context none, sides⟩, .refused generation)

/-- Lets go of a run that reports back, if it is current, and hands its context out. -/
def complete (generation : Nat) : Custody α × Option α :=
  let (registry, registration) := c.registry.complete key generation
  (⟨registry, upon Pair.drop registration.toList c.sides⟩, registration.map (·.context))

/-- Evicts the run of a key. Was there one? -/
def remove : Custody α × Bool :=
  (c.evict key, c.registry.contains key)

/-- Evicts all runs. How many were there? -/
def cancelAll : Custody α × Nat :=
  (⟨c.registry.clear, upon abort c.registry.entries c.sides⟩, c.registry.size)

def serve : Request α → Custody α × Answer α
  | .replace key context starts => c.replace key context starts
  | .complete key generation => (c.complete key generation).map id .completed
  | .remove key => (c.remove key).map id .removed
  | .cancelAll => c.cancelAll.map id .cancelled

end Custody

end AnalyzerBridge.Run
