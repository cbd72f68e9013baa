/-!
What can be wrong with a path, and the host's words for it.
-/

namespace AnalyzerBridge.Host

/-- Why a file cannot be read, or a program cannot be started. -/
inductive Fault where
  | notFound
  | denied
  | notDirectory
  | isDirectory
  | tooLong
  | zeroByte
  | notText
deriving DecidableEq, Repr

def Fault.system (text : String) (number : Nat) : String :=
  text ++ " (os error " ++ toString number ++ ")"

def Fault.message : Fault → String
  | notFound => system "No such file or directory" 2
  | denied => system "Permission denied" 13
  | notDirectory => system "Not a directory" 20
  | isDirectory => system "Is a directory" 21
  | tooLong => system "File name too long" 36
  | zeroByte => "file name contained an unexpected NUL byte"
  | notText => "stream did not contain valid UTF-8"

end AnalyzerBridge.Host
