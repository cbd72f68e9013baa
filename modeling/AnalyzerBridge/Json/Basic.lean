import AnalyzerBridge.Binary64.Basic

/-!
JSON values. An object keeps its members as they were written; `canonical` sorts them by name and
keeps the last one of each name, and `put` maintains that order.
-/

namespace AnalyzerBridge

/-- A number: an integer of 64 bits, or a binary64 number. -/
inductive Number where
  | int (n : Int)
  | real (x : Binary64)
deriving DecidableEq, Repr

inductive Json where
  | null
  | bool (b : Bool)
  | number (n : Number)
  | text (s : String)
  | list (items : List Json)
  | object (members : List (String × Json))
deriving Repr, Inhabited

namespace Json

def int (n : Int) : Json :=
  .number (.int n)

def nat (n : Nat) : Json :=
  .number (.int n)

/-- A value that may be absent, written as null. -/
def ofOption {α : Type} (f : α → Json) : Option α → Json
  | none => .null
  | some a => f a

/-- An object without the members that are absent. -/
def ofMembers (members : List (String × Option Json)) : Json :=
  .object (members.filterMap fun m => m.2.map (m.1, ·))

/-- The first member called `name`. -/
def lookup (name : String) : List (String × Json) → Option Json
  | [] => none
  | (k, v) :: rest => if k = name then some v else lookup name rest

/-- The member called `name`, if the value is an object with such a member. -/
def get? (name : String) : Json → Option Json
  | .object members => lookup name members
  | _ => none

/-- Sets the member called `name`, from the old one if there is one, keeping the order of names. -/
def put {α : Type} (name : String) (f : Option α → α) : List (String × α) → List (String × α)
  | [] => [(name, f none)]
  | (k, v) :: rest =>
    if name < k then (name, f none) :: (k, v) :: rest
    else if name = k then (k, f (some v)) :: rest
    else (k, v) :: put name f rest

mutual

/-- The value with the members of every object in ascending order, the last of each name kept. -/
def canonical : Json → Json
  | .list items => .list (canonicalItems items)
  | .object members => .object (canonicalMembers [] members)
  | v => v

/-- Each item made canonical. -/
def canonicalItems : List Json → List Json
  | [] => []
  | v :: rest => canonical v :: canonicalItems rest

/-- Members put one after the other into the sorted members `done`. -/
def canonicalMembers (done : List (String × Json)) : List (String × Json) → List (String × Json)
  | [] => done
  | (k, v) :: rest => canonicalMembers (put k (fun _ => canonical v) done) rest

end

end Json

end AnalyzerBridge
