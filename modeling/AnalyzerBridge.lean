import AnalyzerBridge.Main
import AnalyzerBridge.Proofs.Editor.Editing
import AnalyzerBridge.Proofs.Report.Keyed
import AnalyzerBridge.Proofs.Report.Lines
import AnalyzerBridge.Proofs.Report.Noise
import AnalyzerBridge.Proofs.Report.Truncation
import AnalyzerBridge.Proofs.Run.Output
import AnalyzerBridge.Proofs.Run.Ledger
import AnalyzerBridge.Proofs.Run.Timeline
import AnalyzerBridge.Proofs.Service.Closed
import AnalyzerBridge.Proofs.Service.Configuration
import AnalyzerBridge.Proofs.Service.Interference
import AnalyzerBridge.Proofs.Service.Publication
import AnalyzerBridge.Proofs.Service.Release
import AnalyzerBridge.Proofs.Service.Snapshots
import AnalyzerBridge.Proofs.Session.Server
import AnalyzerBridge.Proofs.Settings.Layers
import AnalyzerBridge.Editor.Buffer
import AnalyzerBridge.Proofs.Editor.Buffer
import AnalyzerBridge.Proofs.Editor.Reach
import AnalyzerBridge.Proofs.Editor.LineEdit
import AnalyzerBridge.Proofs.Editor.Hover
import AnalyzerBridge.Proofs.Editor.Diagnostics
import AnalyzerBridge.Proofs.Run.Classified
import AnalyzerBridge.Proofs.Run.Ends
import AnalyzerBridge.Proofs.Settings.Printed
import AnalyzerBridge.Proofs.Settings.Verdict
import AnalyzerBridge.Proofs.Report.Instruction
import AnalyzerBridge.Proofs.Editor.Declaration
import AnalyzerBridge.Proofs.Editor.Listing
import AnalyzerBridge.Proofs.Json.Overlay
