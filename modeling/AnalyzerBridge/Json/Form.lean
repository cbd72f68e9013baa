import AnalyzerBridge.Json.Reader

/-!
Forms: how a typed value is written in JSON. A form reads the value from text, where the first
fault from the left counts, and from a JSON value. A record is a list or an object; its form is a
table of fields.
-/

namespace AnalyzerBridge

/-- How values of a type are written. -/
structure Form (α : Type) where
  read : Reader α
  ofJson : Json → Except Fault α

namespace Form

open Json

variable {α β ρ : Type}

/-- What a value in the text shows of itself: scalars are read, brackets are only seen. -/
def peek (s : List Char) : Except Fault Found :=
  match skipSpace s with
  | [] => .error .valueEnds
  | '[' :: _ => .ok .list
  | '{' :: _ => .ok .object
  | s => do let (v, _) ← readValue none s; .ok v.found

def mismatch (wanted : String) (s : List Char) : Except Fault α := do
  let found ← peek s
  .error (.wrongType found wanted)

def map (f : α → β) (a : Form α) : Form β where
  read levels s := do let (v, s) ← a.read levels s; .ok (f v, s)
  ofJson v := do let v ← a.ofJson v; .ok (f v)

/-- Any value is read, and then `f` is applied. -/
def ofValue (f : Json → Except Fault α) : Form α where
  read levels s := do
    let (v, s) ← Json.read levels s
    let a ← f v
    .ok (a, s)
  ofJson := f

/-- An integer for which `accept` gives a value. -/
def integer (wanted : String) (accept : Int → Option α) : Form α :=
  let ofNumber : Number → Except Fault α
    | .int n => match accept n with
      | some a => .ok a
      | none => .error (.wrongValue (.number (.int n)) wanted)
    | .real x => .error (.wrongType (.number (.real x)) wanted)
  { read := fun _ s =>
      match skipSpace s with
      | [] => .error .valueEnds
      | '-' :: s => do
        let (n, s) ← readNumber true s
        let a ← ofNumber n
        .ok (a, s)
      | c :: s =>
        if c.isDigit then do
          let (n, s) ← readNumber false (c :: s)
          let a ← ofNumber n
          .ok (a, s)
        else mismatch wanted (c :: s)
    ofJson := fun v => match v with
      | .number n => ofNumber n
      | v => .error (.wrongType v.found wanted) }

def u32 : Form UInt32 :=
  integer "u32" fun n => if 0 ≤ n ∧ n < twoTo 32 then some (UInt32.ofNat n.toNat) else none

def u64 : Form UInt64 :=
  integer "u64" fun n => if 0 ≤ n ∧ n < twoTo 64 then some (UInt64.ofNat n.toNat) else none

def i64 : Form Int64 :=
  integer "i64" fun n => if -(twoTo 63 : Int) ≤ n ∧ n < twoTo 63 then some (Int64.ofInt n) else none

/-- A text, called `wanted` in messages. -/
def textAs (wanted : String) : Form String where
  read _ s :=
    match skipSpace s with
    | '"' :: s => readText s
    | s => mismatch wanted s
  ofJson v := match v with
    | .text t => .ok t
    | v => .error (.wrongType v.found wanted)

def text : Form String :=
  textAs "a string"

def path : Form String :=
  textAs "path string"

def bool : Form Bool where
  read _ s :=
    match skipSpace s with
    | 't' :: s => do let s ← scanWord "rue".toList s; .ok (true, s)
    | 'f' :: s => do let s ← scanWord "alse".toList s; .ok (false, s)
    | s => mismatch "a boolean" s
  ofJson v := match v with
    | .bool b => .ok b
    | v => .error (.wrongType v.found "a boolean")

/-- Null and nothing else. -/
def unit : Form Unit where
  read _ s :=
    match skipSpace s with
    | 'n' :: s => do let s ← scanWord "ull".toList s; .ok ((), s)
    | s => mismatch "unit" s
  ofJson v := match v with
    | .null => .ok ()
    | v => .error (.wrongType v.found "unit")

def optional (a : Form α) : Form (Option α) where
  read levels s :=
    match skipSpace s with
    | 'n' :: s => do let s ← scanWord "ull".toList s; .ok (none, s)
    | s => do let (v, s) ← a.read levels s; .ok (some v, s)
  ofJson v := match v with
    | .null => .ok none
    | v => do let v ← a.ofJson v; .ok (some v)

def list (a : Form α) : Form (List α) where
  read levels s :=
    match skipSpace s with
    | '[' :: s => match levels with
      | 0 => .error .tooDeep
      | levels + 1 => readItems (a.read levels) s true [] s
    | s => mismatch "a sequence" s
  ofJson v := match v with
    | .list items => items.mapM a.ofJson
    | v => .error (.wrongType v.found "a sequence")

/-- The variant with a name in a table. -/
def variant (table : List (String × α)) (name : String) : Except Fault α :=
  match table.lookup name with
  | some a => .ok a
  | none => .error (.unknownVariant name (table.map (·.1)))

/-- A choice between names: the name, or an object with the name as its only member and null as
the value. -/
def choice (table : List (String × α)) : Form α where
  read levels s :=
    match skipSpace s with
    | [] => .error .valueEnds
    | '"' :: s => do
      let (name, s) ← readText s
      let a ← variant table name
      .ok (a, s)
    | '{' :: s => match levels with
      | 0 => .error .tooDeep
      | levels + 1 => do
        let (name, s) ← (textAs "variant identifier").read levels s
        let a ← variant table name
        let s ← readColon s
        let ((), s) ← unit.read levels s
        match skipSpace s with
        | [] => .error .objectEnds
        | '}' :: s => .ok (a, s)
        | _ => .error .noValue
    | _ => .error .noValue
  ofJson v := match v with
    | .text name => variant table name
    | .object [(name, v)] => do
      let a ← variant table name
      unit.ofJson v
      .ok a
    | .object _ => .error (.wrongValue .object "map with a single key")
    | v => .error (.wrongType v.found "string or map")

end Form

/-- One field of a record: its name, other names it answers to, whether it must be present, and how
its value changes the record. -/
structure FieldForm (ρ : Type) where
  name : String
  aliases : List String
  required : Bool
  read : Reader (ρ → ρ)
  ofJson : Json → Except Fault (ρ → ρ)

namespace FieldForm

variable {α ρ : Type}

/-- A field with the form `a`, stored by `set`. -/
def of (name : String) (aliases : List String) (required : Bool) (a : Form α) (set : α → ρ → ρ) :
    FieldForm ρ where
  name := name
  aliases := aliases
  required := required
  read := (a.map set).read
  ofJson := (a.map set).ofJson

/-- A field that must be present. -/
def need (name : String) (a : Form α) (set : α → ρ → ρ) (aliases : List String := []) : FieldForm ρ :=
  of name aliases true a set

/-- A field that keeps its default where it is absent. -/
def may (name : String) (a : Form α) (set : α → ρ → ρ) (aliases : List String := []) : FieldForm ρ :=
  of name aliases false a set

/-- Is `key` the name or an alias of the field? -/
def answersTo (f : FieldForm ρ) (key : String) : Bool :=
  key == f.name || f.aliases.contains key

end FieldForm

namespace Form

open Json

variable {ρ : Type}

/-- How messages name a record and its number of fields. -/
def sizedTitle (title : String) (n : Nat) : String :=
  title ++ " with " ++ toString n ++ if n = 1 then " element" else " elements"

/-- Fields from number `i` on are absent at the end of a list. -/
def checkTail (title : String) (count : Nat) : List (FieldForm ρ) → Nat → Except Fault Unit
  | [], _ => .ok ()
  | f :: fs, i =>
    if f.required then .error (.wrongLength i (sizedTitle title count))
    else checkTail title count fs (i + 1)

/-- Reads the values of the fields in order, then the end of the list. -/
def readPositions (title : String) (count levels : Nat) :
    List (FieldForm ρ) → Nat → ρ → List Char → Except Fault (ρ × List Char)
  | [], _, r, s => do let s ← closeList s; .ok (r, s)
  | f :: fs, i, r, s => do
    match ← nextItem (i == 0) s with
    | .close s => do checkTail title count (f :: fs) i; .ok (r, s)
    | .entry s => do
      let (set, s) ← f.read levels s
      readPositions title count levels fs (i + 1) (set r) s

/-- The first required field that is not among the names seen is missing. -/
def checkMissing (fields : List (FieldForm ρ)) (seen : List String) : Except Fault Unit :=
  match fields.find? fun f => f.required && !seen.contains f.name with
  | some f => .error (.missingField f.name)
  | none => .ok ()

/-- Reads members up to the end of the object: fields of the record once each, others skipped. -/
def readFields (fields : List (FieldForm ρ)) (levels : Nat) :
    List Char → Bool → List String → ρ → List Char → Except Fault (ρ × List Char)
  | [], _, _, _, _ => .error .objectEnds
  | _ :: bound, first, seen, r, s => do
    match ← nextMember first s with
    | .close s => do checkMissing fields seen; .ok (r, s)
    | .entry s => do
      let (key, s) ← readText s
      match fields.find? (·.answersTo key) with
      | none => do
        let s ← readColon s
        let s ← skip s
        readFields fields levels bound false seen r s
      | some f => do
        if seen.contains f.name then .error (.duplicateField f.name)
        else do
          let s ← readColon s
          let (set, s) ← f.read levels s
          readFields fields levels bound false (f.name :: seen) (set r) s

/-- Takes the values of the fields in order; the list must not be longer. -/
def takePositions (title : String) (count length : Nat) :
    List (FieldForm ρ) → Nat → ρ → List Json → Except Fault ρ
  | [], _, r, [] => .ok r
  | [], _, _, _ :: _ => .error (.wrongLength length "fewer elements in array")
  | f :: fs, i, r, [] => do checkTail title count (f :: fs) i; .ok r
  | f :: fs, i, r, v :: vs => do
    let set ← f.ofJson v
    takePositions title count length fs (i + 1) (set r) vs

/-- Takes members in order: fields of the record once each, others ignored. -/
def takeFields (fields : List (FieldForm ρ)) (seen : List String) (r : ρ) :
    List (String × Json) → Except Fault ρ
  | [] => do checkMissing fields seen; .ok r
  | (key, v) :: rest =>
    match fields.find? (·.answersTo key) with
    | none => takeFields fields seen r rest
    | some f =>
      if seen.contains f.name then .error (.duplicateField f.name)
      else do
        let set ← f.ofJson v
        takeFields fields (f.name :: seen) (set r) rest

/-- A record with these fields, which starts as `blank`. -/
def record (title : String) (blank : ρ) (fields : List (FieldForm ρ)) : Form ρ where
  read levels s :=
    match skipSpace s with
    | '[' :: s => match levels with
      | 0 => .error .tooDeep
      | levels + 1 => readPositions title fields.length levels fields 0 blank s
    | '{' :: s => match levels with
      | 0 => .error .tooDeep
      | levels + 1 => readFields fields levels s true [] blank s
    | s => mismatch title s
  ofJson v := match v with
    | .list items => takePositions title fields.length items.length fields 0 blank items
    | .object members => takeFields fields [] blank members
    | v => .error (.wrongType v.found title)

/-- A record that is written as an object only. -/
def objectOnly (title : String) (blank : ρ) (fields : List (FieldForm ρ)) : Form ρ :=
  ofValue fun v => match v with
    | .object members => takeFields fields [] blank members
    | v => .error (.wrongType v.found title)

/-- The first of several forms that fits a value. -/
def firstOf {α : Type} (name : String) (forms : List (Form α)) : Form α :=
  ofValue fun v =>
    match forms.findSome? fun f => (f.ofJson v).toOption with
    | some a => .ok a
    | none => .error (.noAlternative name)

end Form

end AnalyzerBridge
