import ClonePlot.Report

/-! # The program

Reads the files that a command line names, plots, writes the picture, and prints the report.
-/
namespace ClonePlot.Program

def readContent (path : String) : IO (Option ByteArray) := do
  match ← (IO.FS.readBinFile path).toBaseIO with
  | .ok bytes => return some bytes
  | .error _ => return none

/-- The folder of a user's configuration files, if it is known; a relative one does not
count. -/
def userConfigFolder : IO (Option String) := do
  match (← IO.getEnv "XDG_CONFIG_HOME").filter (·.startsWith "/") with
  | some folder => return some folder
  | none => return (← IO.getEnv "HOME").map (· ++ "/.config")

def loadConfig (path : Option String) : IO LoadedConfig := do
  let here ← readContent Config.fileName
  let path := path.getD (Config.defaultPath here.isSome (← userConfigFolder))
  return Config.load path (← readContent path)

def reportFailure (e : RunError) : IO UInt32 := do
  IO.eprintln s!"Error: {e.message}"
  if let some cause := e.cause? then IO.eprintln s!"\nCaused by:\n    {cause}"
  return if e matches .overflow _ then 101 else 1

/-- Makes the folder for logs; if that fails there is none. -/
def makeLogFolder (a : Arguments) : IO Unit := do
  if let some folder := a.logFolder then
    let _ ← (IO.FS.createDirAll folder).toBaseIO

def plot (a : Arguments) : IO UInt32 := do
  let loaded ← loadConfig a.config
  makeLogFolder a
  match a.run loaded.config (← readContent (a.corpus.getD "")) with
  | .error e => reportFailure e
  | .ok plot =>
    match ← (IO.FS.writeBinFile plot.path plot.content).toBaseIO with
    | .error _ => reportFailure (.save ⟨plot.path⟩)
    | .ok _ =>
      match plot.report with
      | .error e => reportFailure (.overflow e)
      | .ok report =>
        IO.println report.document.pretty
        return 0

def run (arguments : List String) : IO UInt32 := do
  match Command.parse arguments with
  | .error e =>
    IO.eprintln e.message
    return 2
  | .ok .help =>
    IO.println Command.helpText
    return 0
  | .ok .version =>
    IO.println Command.versionText
    return 0
  | .ok (.plot a) => plot a

end ClonePlot.Program

def main (arguments : List String) : IO UInt32 := ClonePlot.Program.run arguments
