import AnalyzerBridge.Command.Eval
import AnalyzerBridge.Host.Files

/-!
The files that are always there: the programs, and the files and directories of the system that
settings may name.
-/

namespace AnalyzerBridge.Host

/-- Files of the system and their texts. -/
def systemFiles : List (String × String) :=
  [("/etc/passwd", "root:x:0:0:root:/root:/bin/bash\n"), ("/etc/group", "root:x:0:\n"),
    ("/etc/hosts", "127.0.0.1\tlocalhost\n"), ("/etc/hostname", "localhost\n"),
    ("/etc/resolv.conf", "nameserver 127.0.0.1\n"), ("/dev/null", "")]

def systemFolders : List String :=
  ["/home", "/lib", "/opt", "/proc", "/root", "/sys", "/tmp", "/usr/lib", "/var"]

def programFolders : List String := Command.Utility.folders

def installation : List (Steps × Entry) :=
  systemFiles.map (fun (path, text) => (steps path.toList, .file text.toUTF8.toList)) ++
    systemFolders.map (fun path => (steps path.toList, .directory)) ++
    programFolders.flatMap fun folder =>
      Command.programNames.map fun name => (steps (folder ++ name).toList, .program name)

def workFolder : Steps := steps "/tmp/work".toList

/-- The system with some entries in the current directory. -/
def Files.ofList (entries : List (String × Entry)) : Files where
  entries := (workFolder, .directory) ::
    entries.map (fun (path, e) => (workFolder ++ steps path.toList, e)) ++ installation
  here := workFolder

/-- The system with an empty current directory. -/
def Files.system : Files := .ofList []

end AnalyzerBridge.Host
