import AnalyzerBridge.Command.Script

/-!
The tokens of a script.
-/

namespace AnalyzerBridge.Command

/-- A token: a word, a redirection still without its target, or an operator. -/
inductive Token where
  | word (w : Word)
  | redirect (descriptor : Nat) (reads : Bool) (duplicates : Bool)
  | newline
  | semicolon
  | doubleSemicolon
  | conjunction
  | disjunction
  | pipe
  | openBracket
  | closeBracket
deriving DecidableEq, Repr

namespace Token

/-- May the character stand in a name after its start? -/
def isNameChar (c : Char) : Bool :=
  c.isAlphanum || c == '_'

def isNameStart (c : Char) : Bool :=
  c.isAlpha || c == '_'

/-- Splits after the bracket that closes the one already open, minding brackets and quotes. -/
def splitClosed (quoted : Bool) (depth : Nat) (done : List Char) :
    List Char → Option (List Char × List Char)
  | [] => none
  | c :: s =>
    if c = '\'' then splitClosed (!quoted) depth (c :: done) s
    else if quoted then splitClosed quoted depth (c :: done) s
    else if c = '(' then splitClosed quoted (depth + 1) (c :: done) s
    else if c = ')' then match depth with
      | 0 => some (done.reverse, s)
      | depth + 1 => splitClosed quoted depth (c :: done) s
    else splitClosed quoted depth (c :: done) s

/-- The parameter after a dollar sign; a sign that starts none stands for itself. -/
def scanParameter (quoted : Bool) : List Char → Option (Piece × List Char)
  | '(' :: s => (splitClosed false 0 [] s).map fun (text, s) => (.output quoted text, s)
  | '{' :: s => match s.span (· ≠ '}') with
    | (name, '}' :: s) =>
      if name.all Char.isDigit then
        some (.parameter quoted (.argument (name.foldl (fun n c => 10 * n + (c.toNat - 48)) 0)), s)
      else if name.all isNameChar then some (.parameter quoted (.variable name), s)
      else none
    | _ => none
  | '#' :: s => some (.parameter quoted .count, s)
  | '@' :: s | '*' :: s => some (.parameter quoted .all, s)
  | '?' :: s => some (.parameter quoted .status, s)
  | '$' :: s => some (.parameter quoted .processId, s)
  | c :: s =>
    if c.isDigit then some (.parameter quoted (.argument (c.toNat - 48)), s)
    else if isNameStart c then
      some (.parameter quoted (.variable ((c :: s).takeWhile isNameChar)),
        (c :: s).dropWhile isNameChar)
    else some (.literal quoted ['$'], c :: s)
  | [] => some (.literal quoted ['$'], [])

/-- Adds a character to the last piece, if that is a literal of the same kind. -/
def addChar (quoted : Bool) (c : Char) : Word → Word
  | .literal q s :: w => if q = quoted then .literal q (c :: s) :: w
    else .literal quoted [c] :: .literal q s :: w
  | w => .literal quoted [c] :: w

def gathered (w : Word) : Word :=
  (w.map fun
    | .literal q s => .literal q s.reverse
    | p => p).reverse

/-- May a backslash quote the character inside double quotes? -/
def isEscapable (c : Char) : Bool :=
  c == '$' || c == '\\' || c == '"' || c == Char.ofNat 0x60

/-- The pieces inside double quotes, up to the closing one; gathered backwards. -/
def scanQuoted : Nat → Word → List Char → Option (Word × List Char)
  | 0, _, _ => none
  | _ + 1, _, [] => none
  | _ + 1, w, '"' :: s => some (w, s)
  | fuel + 1, w, '\\' :: '\n' :: s => scanQuoted fuel w s
  | fuel + 1, w, '\\' :: c :: s =>
    if isEscapable c then scanQuoted fuel (addChar true c w) s
    else scanQuoted fuel (addChar true c (addChar true '\\' w)) s
  | fuel + 1, w, '$' :: s => do
    let (p, s) ← scanParameter true s
    scanQuoted fuel (match p with
      | .literal .. => addChar true '$' w
      | p => p :: w) s
  | fuel + 1, w, c :: s => scanQuoted fuel (addChar true c w) s

def endsWord (c : Char) : Bool :=
  [' ', '\t', '\n', ';', '&', '|', '<', '>', '(', ')'].contains c

/-- The pieces of a word, gathered backwards. -/
def scanWord : Nat → Word → List Char → Option (Word × List Char)
  | 0, _, _ => none
  | _ + 1, w, [] => some (w, [])
  | fuel + 1, w, '\\' :: '\n' :: s => scanWord fuel w s
  | fuel + 1, w, '\\' :: c :: s => scanWord fuel (addChar true c w) s
  | fuel + 1, w, '\'' :: s => match s.span (· ≠ '\'') with
    | (text, _ :: s) => scanWord fuel (.literal true text.reverse :: w) s
    | (_, []) => none
  | fuel + 1, w, '"' :: s => do
    let (w, s) ← scanQuoted fuel (.literal true [] :: w) s
    scanWord fuel w s
  | fuel + 1, w, '$' :: s => do
    let (p, s) ← scanParameter false s
    scanWord fuel (match p with
      | .literal .. => addChar false '$' w
      | p => p :: w) s
  | fuel + 1, w, c :: s =>
    if c = Char.ofNat 0x60 then none
    else if endsWord c then some (w, c :: s)
    else scanWord fuel (addChar false c w) s

/-- The redirection that starts here, with the descriptor written before it. -/
def scanRedirect (descriptor : Option Nat) : List Char → Option (Token × List Char)
  | '<' :: '&' :: s => some (.redirect (descriptor.getD 0) true true, s)
  | '<' :: '<' :: _ => none
  | '<' :: s => some (.redirect (descriptor.getD 0) true false, s)
  | '>' :: '&' :: s => some (.redirect (descriptor.getD 1) false true, s)
  | '>' :: '>' :: s | '>' :: '|' :: s => some (.redirect (descriptor.getD 1) false false, s)
  | '>' :: s => some (.redirect (descriptor.getD 1) false false, s)
  | _ => none

/-- The tokens of a text; `none` if it is no script. -/
def scan : Nat → List Char → Option (List Token)
  | 0, _ => none
  | _ + 1, [] => some []
  | fuel + 1, c :: s =>
    let op (t : Token) (s : List Char) : Option (List Token) := (scan fuel s).map (t :: ·)
    match c, s with
    | ' ', s | '\t', s => scan fuel s
    | '\\', '\n' :: s => scan fuel s
    | '\n', s => op .newline s
    | '#', s => scan fuel (s.dropWhile (· ≠ '\n'))
    | ';', ';' :: s => op .doubleSemicolon s
    | ';', s => op .semicolon s
    | '&', '&' :: s => op .conjunction s
    | '|', '|' :: s => op .disjunction s
    | '|', s => op .pipe s
    | '(', s => op .openBracket s
    | ')', s => op .closeBracket s
    | '&', _ => none
    | '<', s => do let (t, s) ← scanRedirect none ('<' :: s); op t s
    | '>', s => do let (t, s) ← scanRedirect none ('>' :: s); op t s
    | c, s =>
      let digits := (c :: s).takeWhile Char.isDigit
      let after := (c :: s).dropWhile Char.isDigit
      match digits, after.head? with
      | d :: ds, some next =>
        if next = '<' ∨ next = '>' then do
          let n := (d :: ds).foldl (fun n c => 10 * n + (c.toNat - 48)) 0
          let (t, s) ← scanRedirect (some n) after
          op t s
        else do let (w, s) ← scanWord fuel [] (c :: s); op (.word (gathered w)) s
      | _, _ => do let (w, s) ← scanWord fuel [] (c :: s); op (.word (gathered w)) s

/-- The tokens of a text. Each takes a character, so the length bounds their number. -/
def ofText? (s : List Char) : Option (List Token) :=
  scan (s.length + 2) s

end Token

end AnalyzerBridge.Command
