import AnalyzerBridge.Command.Token

/-!
Reading scripts. Each reader takes the tokens that lie ahead and gives a script and the tokens left
over; keywords count only where a command may start.
-/

namespace AnalyzerBridge.Command

namespace Script

abbrev TokenReader (α : Type) := List Token → Option (α × List Token)

/-- The keyword that a token is, where a command may start. -/
def keyword? : Token → Option String
  | .word w => (Word.plain? w).map String.ofList
  | _ => none

def endWords : List String :=
  ["then", "else", "elif", "fi", "do", "done", "esac", "\x7d"]

/-- Does a list of commands end before this token? -/
def isEnd : Token → Bool
  | .closeBracket | .doubleSemicolon => true
  | t => (keyword? t).any endWords.contains

def skipLines : List Token → List Token
  | .newline :: ts => skipLines ts
  | ts => ts

def expectWord (word : String) (ts : List Token) : Option (List Token) :=
  match skipLines ts with
  | t :: ts => if keyword? t = some word then some ts else none
  | [] => none

def target? (duplicates : Bool) (w : Word) : Option Target :=
  if duplicates then
    match Word.plain? w with
    | some ['-'] => some .closed
    | some [c] => if c.isDigit then some (.descriptor (c.toNat - 48)) else none
    | _ => none
  else some (.file w)

def assignment? : Word → Option (List Char × Word)
  | .literal false s :: rest =>
    match s.span Token.isNameChar with
    | (c :: name, '=' :: value) =>
      if Token.isNameStart c then
        some (c :: name, if value.isEmpty then rest else .literal false value :: rest)
      else none
    | _ => none
  | _ => none

/-- Reads the rest of a simple command, gathered backwards. -/
def readSimple (c : SimpleCommand) : List Token → Option (SimpleCommand × List Token)
  | .redirect descriptor reads duplicates :: .word w :: ts => do
    let target ← target? duplicates w
    readSimple { c with redirections := ⟨descriptor, reads, target⟩ :: c.redirections } ts
  | .redirect .. :: _ => none
  | .word w :: ts =>
    match (if c.words.isEmpty then assignment? w else none) with
    | some a => readSimple { c with assignments := a :: c.assignments } ts
    | none => readSimple { c with words := w :: c.words } ts
  | ts => some (⟨c.assignments.reverse, c.words.reverse, c.redirections.reverse⟩, ts)

def readRedirections (done : List Redirection) : List Token →
    Option (List Redirection × List Token)
  | .redirect descriptor reads duplicates :: .word w :: ts => do
    let target ← target? duplicates w
    readRedirections (⟨descriptor, reads, target⟩ :: done) ts
  | .redirect .. :: _ => none
  | ts => some (done.reverse, ts)

/-- Reads the patterns of an arm up to its closing bracket. -/
def readPatterns : List Token → Option (List Word × List Token)
  | .word w :: .closeBracket :: ts => some ([w], ts)
  | .word w :: .pipe :: ts => do let (ws, ts) ← readPatterns ts; some (w :: ws, ts)
  | _ => none

/-- The words up to the end of a line, and the tokens after it. -/
def readWords : List Token → Option (List Word × List Token)
  | .word w :: ts => do let (ws, ts) ← readWords ts; some (w :: ws, ts)
  | .semicolon :: ts | .newline :: ts => some ([], ts)
  | _ => none

/-- Reads the name and the words of a loop over words. Without words, it goes over the arguments. -/
def readHeader : List Token → Option (List Char × List Word × List Token)
  | .word w :: ts => do
    let name ← Word.plain? w
    match skipLines ts with
    | .semicolon :: ts => some (name, [[.parameter true .all]], ts)
    | t :: ts =>
      if keyword? t = some "in" then do let (ws, ts) ← readWords ts; some (name, ws, ts)
      else some (name, [[.parameter true .all]], t :: ts)
    | [] => none
  | _ => none

/-- Reads one command, `list` being the reader of lists of commands. -/
def readCommand (list : TokenReader Script) (arms : TokenReader (List (List Word × Script)))
    (rest : TokenReader Script) : TokenReader Script
  | .openBracket :: ts => do
    let (body, ts) ← list ts
    match ts with
    | .closeBracket :: ts => do let (rs, ts) ← readRedirections [] ts; some (.subshell rs body, ts)
    | _ => none
  | t :: ts =>
    match keyword? t with
    | some "\x7b" => do
      let (body, ts) ← list ts
      let ts ← expectWord "\x7d" ts
      let (rs, ts) ← readRedirections [] ts
      some (.group rs body, ts)
    | some "if" => do
      let (s, ts) ← rest ts
      let (rs, ts) ← readRedirections [] ts
      some (.group rs s, ts)
    | some "while" => do
      let (test, ts) ← list ts
      let ts ← expectWord "do" ts
      let (body, ts) ← list ts
      let ts ← expectWord "done" ts
      let (rs, ts) ← readRedirections [] ts
      some (.group rs (.loop test body), ts)
    | some "for" => do
      let (name, words, ts) ← readHeader ts
      let ts ← expectWord "do" ts
      let (body, ts) ← list ts
      let ts ← expectWord "done" ts
      let (rs, ts) ← readRedirections [] ts
      some (.group rs (.each name words body), ts)
    | some "case" => match ts with
      | .word w :: ts => do
        let ts ← expectWord "in" ts
        let (arms, ts) ← arms ts
        let (rs, ts) ← readRedirections [] ts
        some (.group rs (.choice w arms), ts)
      | _ => none
    | _ => match readSimple ⟨[], [], []⟩ (t :: ts) with
      | some (⟨[], [], []⟩, _) => none
      | some (c, ts) => some (.simple c, ts)
      | none => none
  | [] => none

mutual

/-- Reads commands separated by semicolons and line ends, up to an end. -/
def readList : Nat → TokenReader Script
  | 0, _ => none
  | fuel + 1, ts =>
    match skipLines ts with
    | [] => some (.skip, [])
    | t :: ts =>
      if isEnd t then some (.skip, t :: ts)
      else do
        let (a, ts) ← readChain fuel (t :: ts)
        match ts with
        | .semicolon :: ts | .newline :: ts => do
          let (b, ts) ← readList fuel ts
          some (.sequence a b, ts)
        | ts => some (a, ts)

/-- Reads pipelines joined by conjunctions and disjunctions, which group to the left. -/
def readChain : Nat → TokenReader Script
  | 0, _ => none
  | fuel + 1, ts => do
    let (a, ts) ← readPipeline fuel ts
    continueChain fuel a ts

def continueChain : Nat → Script → TokenReader Script
  | 0, _, _ => none
  | fuel + 1, a, .conjunction :: ts => do
    let (b, ts) ← readPipeline fuel (skipLines ts)
    continueChain fuel (.both a b) ts
  | fuel + 1, a, .disjunction :: ts => do
    let (b, ts) ← readPipeline fuel (skipLines ts)
    continueChain fuel (.either a b) ts
  | _ + 1, a, ts => some (a, ts)

def readPipeline : Nat → TokenReader Script
  | 0, _ => none
  | fuel + 1, t :: ts =>
    if keyword? t = some "!" then do
      let (a, ts) ← readPipeline fuel ts
      some (.negated a, ts)
    else do
      let (a, ts) ← readCommand (readList fuel) (readArms fuel) (readBranches fuel) (t :: ts)
      match ts with
      | .pipe :: ts => do
        let (b, ts) ← readPipeline fuel (skipLines ts)
        some (.pipe a b, ts)
      | ts => some (a, ts)
  | _ + 1, [] => none

def readBranches : Nat → TokenReader Script
  | 0, _ => none
  | fuel + 1, ts => do
    let (test, ts) ← readList fuel ts
    let ts ← expectWord "then" ts
    let (yes, ts) ← readList fuel ts
    match skipLines ts with
    | t :: ts => match keyword? t with
      | some "fi" => some (.branch test yes .skip, ts)
      | some "else" => do
        let (no, ts) ← readList fuel ts
        let ts ← expectWord "fi" ts
        some (.branch test yes no, ts)
      | some "elif" => do
        let (no, ts) ← readBranches fuel ts
        some (.branch test yes no, ts)
      | _ => none
    | [] => none

def readArms : Nat → TokenReader (List (List Word × Script))
  | 0, _ => none
  | fuel + 1, ts =>
    match skipLines ts with
    | t :: ts =>
      if keyword? t = some "esac" then some ([], ts)
      else do
        let (patterns, ts) ← readPatterns (if t = .openBracket then ts else t :: ts)
        let (body, ts) ← readList fuel ts
        match skipLines ts with
        | .doubleSemicolon :: ts => do
          let (arms, ts) ← readArms fuel ts
          some ((patterns, body) :: arms, ts)
        | ts => do
          let ts ← expectWord "esac" ts
          some ([(patterns, body)], ts)
    | [] => none

end

/-- The script in a text; `none` if the text is no script. -/
def ofText? (s : List Char) : Option Script := do
  let ts ← Token.ofText? s
  match ← readList (8 * ts.length + 8) ts with
  | (script, []) => some script
  | _ => none

end Script

end AnalyzerBridge.Command
