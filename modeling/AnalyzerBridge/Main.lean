import AnalyzerBridge.CommandLine
import AnalyzerBridge.Session.Dialogue
import AnalyzerBridge.Session.Frame

/-!
The program: it reads the command line, and then serves an editor on its standard streams.
-/

namespace AnalyzerBridge.Program

open Session

def faultOf : IO.Error → Host.Fault
  | .permissionDenied .. => .denied
  | .inappropriateType _ code _ => if code = 21 then .isDirectory else .notDirectory
  | .invalidArgument .. => .tooLong
  | _ => .notFound

def readFile (path : String) : IO (Except Host.Fault String) := do
  try
    let bytes ← IO.FS.readBinFile path
    return match Text.Utf8.decode? bytes.toList with
      | some s => .ok (String.ofList s)
      | none => .error .notText
  catch e => return .error (faultOf e)

/-- Reads header lines up to the empty one: the number of bytes that follow, or nothing at the end of
the input. -/
partial def readHeader (input : IO.FS.Stream) (length : Option Nat) : IO (Option Nat) := do
  let line ← input.getLine
  if line.isEmpty then return none
  else if (Text.trim line.toList).isEmpty then return some (length.getD 0)
  else readHeader input ((Frame.length? line).or length)

/-- Reads so many bytes, or fewer at the end of the input. -/
partial def readBytes (input : IO.FS.Stream) (n : Nat) (done : List UInt8) : IO (List UInt8) := do
  if n = 0 then return done
  let bytes ← input.read (USize.ofNat n)
  if bytes.isEmpty then return done
  else readBytes input (n - bytes.size) (done ++ bytes.toList)

/-- Serves the editor until it ends the session or its stream ends. All runs that a message starts
end before the next message is read. -/
partial def serve (input output : IO.FS.Stream) (d : Dialogue) : IO Unit := do
  match ← readHeader input none with
  | none => return
  | some n =>
    let bytes ← readBytes input n []
    let d := match Frame.message? (String.ofList (Text.Utf8.decodeLossy bytes)) with
      | some m => (d.send m).wait fun _ => false
      | none => d
    for out in d.unseen do
      output.putStr (Frame.write out)
    output.flush
    if d.server.life = .ended then return
    serve input output { d with unseen := [] }

/-- The text of the file with the settings, if one is named. -/
def readSettings : Except CommandLine.Stop (CommandLine.Task × CommandLine.Options) →
    IO (Except Host.Fault String)
  | .ok (.serve, o) => match o.config with
    | some path => readFile path
    | none => return .ok ""
  | _ => return .ok ""

end AnalyzerBridge.Program

open AnalyzerBridge in
def main (arguments : List String) : IO UInt32 := do
  let parsed := CommandLine.parse arguments (← IO.getEnv "QSCRIPT_ANALYZER")
  let content ← Program.readSettings parsed
  match CommandLine.begin parsed fun _ => content with
  | .ended e =>
    (← IO.getStdout).putStr e.output
    (← IO.getStderr).putStr e.complaint
    return e.code.toUInt32
  | .serving settings =>
    Program.serve (← IO.getStdin) (← IO.getStdout) (.begin settings)
    return 0
