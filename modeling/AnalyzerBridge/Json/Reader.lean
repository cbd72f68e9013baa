import AnalyzerBridge.Json.Scan

/-!
Reading JSON text from left to right. A reader takes the number of levels that may still be opened
and the text, and gives a value and the rest; the first fault met ends it. Values nobody asks for
are skipped, which checks their spelling but not their depth.
-/

namespace AnalyzerBridge

/-- Reads a value at the start of a text, opening at most so many levels. -/
abbrev Reader (α : Type) :=
  Nat → List Char → Except Fault (α × List Char)

namespace Json

/-- How many lists and objects may be open at once. -/
def maxLevels : Nat := 127

/-- The next thing inside a bracket: an entry, or the closing bracket. The rest starts at the entry
or after the bracket. -/
inductive Next where
  | entry (rest : List Char)
  | close (rest : List Char)

/-- Looks for the next item of a list. -/
def nextItem (first : Bool) (s : List Char) : Except Fault Next :=
  match skipSpace s with
  | [] => .error .listEnds
  | ']' :: s => .ok (.close s)
  | c :: s =>
    if first then .ok (.entry (c :: s))
    else if c = ',' then
      match skipSpace s with
      | [] => .error .valueEnds
      | ']' :: _ => .error .trailingComma
      | s => .ok (.entry s)
    else .error .noListSeparator

/-- Looks for the next member of an object. An entry's rest starts after the opening quote of its
name. -/
def nextMember (first : Bool) (s : List Char) : Except Fault Next :=
  match skipSpace s with
  | [] => .error .objectEnds
  | '}' :: s => .ok (.close s)
  | c :: s =>
    if first then if c = '"' then .ok (.entry s) else .error .nameNotText
    else if c = ',' then
      match skipSpace s with
      | [] => .error .valueEnds
      | '"' :: s => .ok (.entry s)
      | '}' :: _ => .error .trailingComma
      | _ => .error .nameNotText
    else .error .noObjectSeparator

def readColon (s : List Char) : Except Fault (List Char) :=
  match skipSpace s with
  | [] => .error .objectEnds
  | ':' :: s => .ok s
  | _ => .error .noColon

/-- Reads a name after its opening quote, and the colon. -/
def readName (s : List Char) : Except Fault (String × List Char) := do
  let (name, s) ← readText s
  let s ← readColon s
  .ok (name, s)

/-- Reads the end of a list whose items are all read. -/
def closeList (s : List Char) : Except Fault (List Char) :=
  match skipSpace s with
  | [] => .error .listEnds
  | ']' :: s => .ok s
  | ',' :: s => match skipSpace s with
    | ']' :: _ => .error .trailingComma
    | _ => .error .trailingText
  | _ => .error .trailingText

/-- Reads the items of a list up to its end. Each takes at least one character, so there are no
more of them than characters in the text that is first given as the bound. -/
def readItems {α : Type} (item : List Char → Except Fault (α × List Char)) :
    List Char → Bool → List α → List Char → Except Fault (List α × List Char)
  | [], _, _, _ => .error .listEnds
  | _ :: bound, first, done, s => do
    match ← nextItem first s with
    | .close s => .ok (done.reverse, s)
    | .entry s => do
      let (v, s) ← item s
      readItems item bound false (v :: done) s

/-- Reads the members of an object up to its end, bounded by the text as in a list. -/
def readMembers {α : Type} (value : List Char → Except Fault (α × List Char)) :
    List Char → Bool → List (String × α) → List Char → Except Fault (List (String × α) × List Char)
  | [], _, _, _ => .error .objectEnds
  | _ :: bound, first, done, s => do
    match ← nextMember first s with
    | .close s => .ok (done.reverse, s)
    | .entry s => do
      let (name, s) ← readName s
      let (v, s) ← value s
      readMembers value bound false ((name, v) :: done) s

/-- Reads a value whose items and members are read by `inner`; there is none where no more levels
may be opened. -/
def readValue (inner : Option (List Char → Except Fault (Json × List Char))) (s : List Char) :
    Except Fault (Json × List Char) :=
  match skipSpace s with
  | [] => .error .valueEnds
  | 'n' :: s => do let s ← scanWord "ull".toList s; .ok (.null, s)
  | 't' :: s => do let s ← scanWord "rue".toList s; .ok (.bool true, s)
  | 'f' :: s => do let s ← scanWord "alse".toList s; .ok (.bool false, s)
  | '-' :: s => do let (n, s) ← readNumber true s; .ok (.number n, s)
  | '"' :: s => do let (t, s) ← readText s; .ok (.text t, s)
  | '[' :: s => match inner with
    | none => .error .tooDeep
    | some item => do let (items, s) ← readItems item s true [] s; .ok (.list items, s)
  | '{' :: s => match inner with
    | none => .error .tooDeep
    | some value => do
      let (members, s) ← readMembers value s true [] s
      .ok (.object members, s)
  | c :: s =>
    if c.isDigit then do let (n, s) ← readNumber false (c :: s); .ok (.number n, s)
    else .error .noValue

def read : Reader Json
  | 0 => readValue none
  | levels + 1 => readValue (some (read levels))

/-- Skips the items of a list from the start of one of them to the end of the list. -/
def skipItems (item : List Char → Except Fault (List Char)) : List Char → List Char →
    Except Fault (List Char)
  | [], _ => .error .listEnds
  | _ :: bound, s => do
    let s ← item s
    match skipSpace s with
    | [] => .error .listEnds
    | ']' :: s => .ok s
    | ',' :: s => skipItems item bound s
    | _ => .error .noListSeparator

/-- Skips the members of an object from the start of one of them to the end of the object. -/
def skipMembers (value : List Char → Except Fault (List Char)) : List Char → List Char →
    Except Fault (List Char)
  | [], _ => .error .objectEnds
  | _ :: bound, s => do
    let s ← match skipSpace s with
      | [] => .error .objectEnds
      | '"' :: s => skipText s
      | _ => .error .nameNotText
    let s ← readColon s
    let s ← value s
    match skipSpace s with
    | [] => .error .objectEnds
    | '}' :: s => .ok s
    | ',' :: s => skipMembers value bound s
    | _ => .error .noObjectSeparator

/-- Skips a value that opens at most as many levels as the bound has characters. -/
def skipWithin : List Char → List Char → Except Fault (List Char)
  | [], _ => .error .valueEnds
  | _ :: bound, s =>
    match skipSpace s with
    | [] => .error .valueEnds
    | 'n' :: s => scanWord "ull".toList s
    | 't' :: s => scanWord "rue".toList s
    | 'f' :: s => scanWord "alse".toList s
    | '-' :: s => skipNumber s
    | '"' :: s => skipText s
    | '[' :: s => match skipSpace s with
      | [] => .error .listEnds
      | ']' :: s => .ok s
      | s => skipItems (skipWithin bound) s s
    | '{' :: s => match skipSpace s with
      | [] => .error .objectEnds
      | '}' :: s => .ok s
      | s => skipMembers (skipWithin bound) s s
    | c :: s => if c.isDigit then skipNumber (c :: s) else .error .noValue

/-- Skips any value. Each level takes a character, so the text bounds the depth. -/
def skip (s : List Char) : Except Fault (List Char) :=
  skipWithin s s

/-- Nothing but spaces may follow the value of a whole text. -/
def finish (s : List Char) : Except Fault Unit :=
  if (skipSpace s).isEmpty then .ok () else .error .trailingText

def readWhole {α : Type} (r : Reader α) (s : String) : Except Fault α := do
  let (a, rest) ← r maxLevels s.toList
  finish rest
  .ok a

/-- The value of a whole text, with sorted members. -/
def parse (s : String) : Except Fault Json := do
  let v ← readWhole read s
  .ok v.canonical

end Json

end AnalyzerBridge
