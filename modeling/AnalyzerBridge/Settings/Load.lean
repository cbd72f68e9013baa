import AnalyzerBridge.Host.Fault
import AnalyzerBridge.Settings.Form

/-!
Settings from a file.
-/

namespace AnalyzerBridge.Settings

inductive LoadFault where
  | unreadable (path : String) (fault : Host.Fault)
  | invalid (fault : Fault)
deriving DecidableEq, Repr

def LoadFault.message : LoadFault → String
  | unreadable path fault => "failed to read config file " ++ path ++ ": " ++ fault.message
  | invalid fault => faultMessage fault

/-- The settings in the file at `path`, whose text was found or not. -/
def ofFile (path : String) (content : Except Host.Fault String) : Except LoadFault Settings :=
  match content with
  | .error f => .error (.unreadable path f)
  | .ok s => match ofText s with
    | .error f => .error (.invalid f)
    | .ok s => .ok s

end AnalyzerBridge.Settings
