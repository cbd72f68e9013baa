import AnalyzerBridge.Json.Writer
import AnalyzerBridge.Settings.Load

/-!
The command line: its options, what they change in the settings, and what is done instead of serving
where something else is asked for or the options are wrong.
-/

namespace AnalyzerBridge.CommandLine

/-- The options that have values, and the switches. -/
structure Options where
  analyzer : Option String
  format : Option Format
  timeoutMs : Option UInt64
  config : Option String
  stdio : Bool
  verbose : Bool
deriving DecidableEq, Repr

inductive Task where
  | serve
  | printDefaults
deriving DecidableEq, Repr

/-- Why nothing more is done: a page that was asked for, or an error. -/
inductive Stop where
  | help
  | version
  | misuse (reason : String)
  | unusable (path : String) (fault : Settings.LoadFault)
deriving DecidableEq, Repr

structure Exit where
  code : UInt8
  output : String
  complaint : String
deriving DecidableEq, Repr

def title : String := "qscript-lsp 0.2.0\n"

def helpPage : String :=
  "Language server for Q-Script\n\n" ++
  "Usage: qscript-lsp [OPTIONS] [COMMAND]\n\n" ++
  "Commands:\n" ++
  "  config  Print the default configuration\n" ++
  "  help    Print this message or the help of the given subcommand(s)\n\n" ++
  "Options:\n" ++
  "      --analyzer <ANALYZER>      Path to the analyzer executable [env: QSCRIPT_ANALYZER=]\n" ++
  "      --format <FORMAT>          Analyzer output format (structured or legacy)\n" ++
  "      --timeout-ms <TIMEOUT_MS>  Milliseconds before an analyzer run is killed " ++
  "(0 disables the limit)\n" ++
  "  -c, --config <CONFIG>          Configuration file path\n" ++
  "  -v, --verbose                  Verbose output\n" ++
  "  -h, --help                     Print help\n" ++
  "  -V, --version                  Print version\n"

def Stop.exit : Stop → Exit
  | help => ⟨0, helpPage, ""⟩
  | version => ⟨0, title, ""⟩
  | misuse reason => ⟨2, "", "error: " ++ reason ++ "\n"⟩
  | unusable path fault =>
    ⟨1, "", "Error: Failed to load config file: " ++ path ++ "\n\nCaused by:\n    " ++
      fault.message ++ "\n"⟩

def Options.none : Options :=
  ⟨.none, .none, .none, .none, false, false⟩

inductive Key where
  | analyzer
  | format
  | timeoutMs
  | config
deriving DecidableEq, Repr

/-- A switch, or the request for a page. -/
inductive Switch where
  | stdio
  | verbose
  | help
  | version
deriving DecidableEq, Repr

def Key.names : List (String × Key) :=
  [("analyzer", .analyzer), ("format", .format), ("timeout-ms", .timeoutMs), ("config", .config)]

def Switch.names : List (String × Switch) :=
  [("stdio", .stdio), ("verbose", .verbose), ("help", .help), ("version", .version)]

def Switch.letters : List (Char × Switch) :=
  [('v', .verbose), ('h', .help), ('V', .version)]

def path (value : String) : Except Stop String :=
  if value.isEmpty then .error (.misuse "a value is required but none was supplied") else .ok value

/-- Keeps a value, unless the option has one. -/
def once {α : Type} (old : Option α) (value : α) : Except Stop (Option α) :=
  match old with
  | .none => .ok (some value)
  | some _ => .error (.misuse "the argument cannot be used multiple times")

def Options.set (o : Options) (key : Key) (value : String) : Except Stop Options :=
  match key with
  | .analyzer => do
    let v ← once o.analyzer (← path value)
    .ok { o with analyzer := v }
  | .config => do
    let v ← once o.config (← path value)
    .ok { o with config := v }
  | .format => match Format.ofWord value with
    | .ok f => do
      let v ← once o.format f
      .ok { o with format := v }
    | .error word => .error (.misuse (Format.unknownMessage word))
  | .timeoutMs => match Text.numeral? (twoTo 64) value.toList with
    | some n => do
      let v ← once o.timeoutMs (UInt64.ofNat n)
      .ok { o with timeoutMs := v }
    | .none => .error (.misuse "invalid value for '--timeout-ms <TIMEOUT_MS>'")

def Options.turnOn (o : Options) (s : Switch) : Except Stop Options :=
  match s with
  | .help => .error .help
  | .version => .error .version
  | .stdio =>
    if o.stdio then .error (.misuse "the argument '--stdio' cannot be used multiple times")
    else .ok { o with stdio := true }
  | .verbose =>
    if o.verbose then .error (.misuse "the argument '--verbose' cannot be used multiple times")
    else .ok { o with verbose := true }

/-- May the argument be the value of the option before it? -/
def isValue (argument : String) : Bool :=
  argument = "-" || argument.toList.head? ≠ some '-'

/-- The arguments after a subcommand: nothing but a request for help. -/
def readNoOptions : List String → Except Stop Unit
  | [] => .ok ()
  | ["--"] => .ok ()
  | "-h" :: _ | "--help" :: _ => .error .help
  | argument :: _ => .error (.misuse ("unexpected argument '" ++ argument ++ "' found"))

def helpTopics : List (List String) :=
  [[], ["config"], ["help"]]

/-- Reads a group of short options: switches, until one takes the rest as its value. -/
def readLetters (o : Options) : List Char → Except Stop (Options × Option (Key × Option String))
  | [] => .ok (o, .none)
  | 'c' :: [] => .ok (o, some (.config, .none))
  | 'c' :: '=' :: value => .ok (o, some (.config, some (String.ofList value)))
  | 'c' :: value => .ok (o, some (.config, some (String.ofList value)))
  | c :: rest => match Switch.letters.lookup c with
    | some s => do readLetters (← o.turnOn s) rest
    | .none => .error (.misuse ("unexpected argument '-" ++ String.ofList [c] ++ "' found"))

/-- An argument that is not a value: what it says by itself, and the option whose value follows. -/
inductive Word where
  | done (o : Options)
  | awaits (o : Options) (key : Key)
  | command (name : String)
  | rest

def readWord (o : Options) (argument : String) : Except Stop Word :=
  match argument.toList with
  | ['-', '-'] => .ok .rest
  | '-' :: '-' :: long =>
    let name := String.ofList (long.takeWhile (· ≠ '='))
    match Key.names.lookup name, Switch.names.lookup name, long.dropWhile (· ≠ '=') with
    | some key, _, _ :: value => do .ok (.done (← o.set key (String.ofList value)))
    | some key, _, [] => .ok (.awaits o key)
    | _, some s, [] => do .ok (.done (← o.turnOn s))
    | _, _, _ => .error (.misuse ("unexpected argument '--" ++ name ++ "' found"))
  | '-' :: c :: letters => do
    match ← readLetters o (c :: letters) with
    | (o, .none) => .ok (.done o)
    | (o, some (key, some value)) => do .ok (.done (← o.set key value))
    | (o, some (key, .none)) => .ok (.awaits o key)
  | _ => .ok (.command argument)

/-- Reads arguments from left to right; the first thing that is wrong, or asks for a page, ends the
reading. -/
def readAll (o : Options) : List String → Except Stop (Task × Options)
  | [] => .ok (.serve, o)
  | argument :: rest => do
    match ← readWord o argument with
    | .done o => readAll o rest
    | .awaits o key => match rest with
      | value :: rest =>
        if isValue value then do readAll (← o.set key value) rest
        else .error (.misuse "a value is required but none was supplied")
      | [] => .error (.misuse "a value is required but none was supplied")
    | .rest => match rest with
      | [] => .ok (.serve, o)
      | argument :: _ => .error (.misuse ("unexpected argument '" ++ argument ++ "' found"))
    | .command "config" => do
      readNoOptions rest
      .ok (.printDefaults, o)
    | .command "help" =>
      if helpTopics.contains rest then .error .help
      else .error (.misuse "unrecognized subcommand")
    | .command name => .error (.misuse ("unrecognized subcommand '" ++ name ++ "'"))

/-- Reads the command line. The environment may name the analyzer where no option does. -/
def parse (arguments : List String) (analyzerVariable : Option String) :
    Except Stop (Task × Options) := do
  let (task, o) ← readAll .none arguments
  match o.analyzer, analyzerVariable with
  | .none, some value => do .ok (task, ← o.set .analyzer value)
  | _, _ => .ok (task, o)

/-- The settings of a file, changed by the options. -/
def Options.applyTo (o : Options) (s : Settings) : Settings :=
  { s with analyzer := { s.analyzer with
    path := o.analyzer.getD s.analyzer.path
    format := o.format.getD s.analyzer.format
    timeoutMs := o.timeoutMs.getD s.analyzer.timeoutMs } }

/-- The settings in force at the start. `content` is the text of a file, if it can be read. -/
def Options.settings (o : Options) (content : String → Except Host.Fault String) :
    Except Stop Settings :=
  match o.config with
  | .none => .ok (o.applyTo .default)
  | some path => match Settings.ofFile path (content path) with
    | .ok s => .ok (o.applyTo s)
    | .error f => .error (.unusable path f)

/-- What the program does first: it ends, or it serves with some settings. -/
inductive Beginning where
  | ended (exit : Exit)
  | serving (settings : Settings)

def defaultsPage : String :=
  Settings.default.toJson.pretty ++ "\n"

def begin (parsed : Except Stop (Task × Options)) (content : String → Except Host.Fault String) :
    Beginning :=
  match parsed with
  | .error s => .ended s.exit
  | .ok (.printDefaults, _) => .ended ⟨0, defaultsPage, ""⟩
  | .ok (.serve, o) => match o.settings content with
    | .ok s => .serving s
    | .error s => .ended s.exit

end AnalyzerBridge.CommandLine
