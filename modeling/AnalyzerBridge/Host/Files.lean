import AnalyzerBridge.Host.Fault
import AnalyzerBridge.Text.Utf8

/-!
A small tree of files with a current directory: what stands at a path, and its text.
-/

namespace AnalyzerBridge.Host

/-- What stands at a path. A program is known by its name; it is no text. -/
inductive Entry where
  | file (bytes : List UInt8)
  | program (name : String)
  | directory
deriving DecidableEq, Repr

/-- A way down from a directory, name by name. -/
abbrev Steps := List (List Char)

/-- The steps of a path: the names between slashes, without those that stay in place. -/
def steps (path : List Char) : Steps :=
  let names := path.foldr (fun c names => match c, names with
    | '/', names => [] :: names
    | c, name :: names => (c :: name) :: names
    | c, [] => [[c]]) [[]]
  names.filter fun name => !name.isEmpty && name ≠ ['.']

/-- A tree as the entries at some steps from its root. Directories on the way to an entry need no
entry of their own. Relative paths start at `here`. -/
structure Files where
  entries : List (Steps × Entry)
  here : Steps

/-- The longest name in a directory, in bytes. -/
def longestName : Nat := 255

/-- The longest path, in bytes. -/
def longestPath : Nat := 4095

namespace Files

def entry? (f : Files) (at_ : Steps) : Option Entry :=
  match f.entries.lookup at_ with
  | some e => some e
  | none => if f.entries.any (fun e => at_.isPrefixOf e.1) then some .directory else none

/-- Follows the steps that lie ahead, some having been taken. -/
def follow (f : Files) (taken : Steps) : Steps → Except Fault Entry
  | [] => match f.entry? taken with
    | some e => .ok e
    | none => .error .notFound
  | name :: rest => match f.entry? taken with
    | some .directory =>
      if longestName < (String.ofList name).utf8ByteSize then .error .tooLong
      else follow f (if name = ['.', '.'] then taken.dropLast else taken ++ [name]) rest
    | some _ => .error .notDirectory
    | none => .error .notFound

/-- What stands at a path. A path that ends with a slash means a directory. -/
def find (f : Files) (path : String) : Except Fault Entry := do
  let p := path.toList
  if p.contains (Char.ofNat 0) then .error .zeroByte
  if p.isEmpty then .error .notFound
  if longestPath < path.utf8ByteSize then .error .tooLong
  let found ← f.follow (if p.head? = some '/' then [] else f.here) (steps p)
  if p.getLast? = some '/' && found ≠ .directory then .error .notDirectory
  return found

def readText (f : Files) (path : String) : Except Fault String := do
  match ← f.find path with
  | .directory => .error .isDirectory
  | .program _ => .error .notText
  | .file bytes => match Text.Utf8.decode? bytes with
    | some s => .ok (String.ofList s)
    | none => .error .notText

end Files

end AnalyzerBridge.Host
