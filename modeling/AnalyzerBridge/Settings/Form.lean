import AnalyzerBridge.Json.Overlay
import AnalyzerBridge.Settings.Basic

/-!
Settings in JSON: as a whole text in a file, and as overrides that are laid over the settings in
force. What a text leaves out keeps its default, what an override leaves out keeps its value.
-/

namespace AnalyzerBridge

open Form FieldForm

def AnalyzerSettings.form : Form AnalyzerSettings :=
  record "struct AnalyzerConfig" .default [
    may "path" Form.path fun v a => { a with path := v },
    may "args" (list text) fun v a => { a with args := v },
    may "exitFlag" text fun v a => { a with exitFlag := v },
    may "listSymbolsFlag" text fun v a => { a with listSymbolsFlag := v },
    may "format" Format.form fun v a => { a with format := v },
    may "timeoutMs" u64 fun v a => { a with timeoutMs := v }]

def DiagnosticsSettings.form : Form DiagnosticsSettings :=
  record "struct DiagnosticsConfig" .default [
    may "source" text fun v d => { d with source := v }]

namespace Settings

def form : Form Settings :=
  record "struct Config" .default [
    may "analyzer" AnalyzerSettings.form fun v s => { s with analyzer := v },
    may "diagnostics" DiagnosticsSettings.form fun v s => { s with diagnostics := v }]

def toJson (s : Settings) : Json :=
  .object [
    ("analyzer", .object [
      ("path", .text s.analyzer.path),
      ("args", .list (s.analyzer.args.map .text)),
      ("exitFlag", .text s.analyzer.exitFlag),
      ("listSymbolsFlag", .text s.analyzer.listSymbolsFlag),
      ("format", .text s.analyzer.format.name),
      ("timeoutMs", .nat s.analyzer.timeoutMs.toNat)]),
    ("diagnostics", .object [("source", .text s.diagnostics.source)])]

def ofText (s : String) : Except Fault Settings :=
  Json.readWhole form.read s

/-- The settings with a value laid over them. -/
def withOverrides (s : Settings) (overrides : Json) : Except Fault Settings :=
  form.ofJson (s.toJson.canonical.overlay overrides)

def faultMessage (f : Fault) : String :=
  "invalid configuration: " ++ f.message

end Settings

end AnalyzerBridge
