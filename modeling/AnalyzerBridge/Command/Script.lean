/-!
Scripts of a command shell: words with their expansions, redirections, and the ways in which
commands are put together.
-/

namespace AnalyzerBridge.Command

/-- What a dollar sign can stand for. -/
inductive Parameter where
  | variable (name : List Char)
  | argument (n : Nat)
  | count
  | all
  | status
  | processId
deriving DecidableEq, Repr

/-- A part of a word. Quoted parts are neither split into fields nor taken for patterns. The output
of a command is kept as the text of the command. -/
inductive Piece where
  | literal (quoted : Bool) (s : List Char)
  | parameter (quoted : Bool) (p : Parameter)
  | output (quoted : Bool) (text : List Char)
deriving DecidableEq, Repr

abbrev Word := List Piece

/-- The text of a word that has one piece, not quoted; only such words can be keywords. -/
def Word.plain? : Word → Option (List Char)
  | [.literal false s] => some s
  | _ => none

inductive Target where
  | file (path : Word)
  | descriptor (n : Nat)
  | closed
deriving DecidableEq, Repr

/-- A redirection of a descriptor, for reading or for writing. -/
structure Redirection where
  descriptor : Nat
  reads : Bool
  target : Target
deriving DecidableEq, Repr

structure SimpleCommand where
  assignments : List (List Char × Word)
  words : List Word
  redirections : List Redirection
deriving DecidableEq, Repr

inductive Script where
  | skip
  | simple (c : SimpleCommand)
  | sequence (a b : Script)
  | both (a b : Script)
  | either (a b : Script)
  | negated (a : Script)
  | pipe (a b : Script)
  | choice (word : Word) (arms : List (List Word × Script))
  | branch (test yes no : Script)
  | loop (test body : Script)
  | each (name : List Char) (words : List Word) (body : Script)
  | group (redirections : List Redirection) (body : Script)
  | subshell (redirections : List Redirection) (body : Script)
deriving Repr, Inhabited

end AnalyzerBridge.Command
