import ClonePlot.Point
import ClonePlot.Text.Blank
import ClonePlot.Text.Integer
import ClonePlot.Text.Split

/-! # The command line

Options and their values, read from left to right. A value may follow its option after an
equals sign or as the next argument; one that starts with a dash needs the equals sign.
-/
namespace ClonePlot

inductive ArgumentName
  | corpus
  | output
  | size
  | multiplier
  | metric
  | click
  | drag
  | probe
  | config
  | logFolder
  deriving DecidableEq, Repr

namespace ArgumentName

def display : ArgumentName → String
  | corpus => "<CORPUS>"
  | output => "--output <OUTPUT>"
  | size => "--size <SIZE>"
  | multiplier => "--multiplier <MULTIPLIER>"
  | metric => "--metric <METRIC>"
  | click => "--click <CLICK>"
  | drag => "--drag <DRAG>"
  | probe => "--probe <PROBE>"
  | config => "--config <CONFIG>"
  | logFolder => "--log-dir <LOG_DIR>"

def ofLong? : List Char → Option ArgumentName := fun s =>
  match String.ofList s with
  | "output" => some output
  | "size" => some size
  | "multiplier" => some multiplier
  | "metric" => some metric
  | "click" => some click
  | "drag" => some drag
  | "probe" => some probe
  | "config" => some config
  | "log-dir" => some logFolder
  | _ => none

end ArgumentName

structure Arguments where
  corpus : Option String := none
  output : Option String := none
  size : Option Nat := none
  multiplier : Option Nat := none
  metric : Option String := none
  click : Option Point := none
  drag : Option (Point × Point) := none
  probe : Option Point := none
  config : Option String := none
  logFolder : Option String := none

namespace Arguments

def defaultOutput : String := "plot.png"

def outputPath (a : Arguments) : String := a.output.getD defaultOutput

def has (a : Arguments) : ArgumentName → Bool
  | .corpus => a.corpus.isSome
  | .output => a.output.isSome
  | .size => a.size.isSome
  | .multiplier => a.multiplier.isSome
  | .metric => a.metric.isSome
  | .click => a.click.isSome
  | .drag => a.drag.isSome
  | .probe => a.probe.isSome
  | .config => a.config.isSome
  | .logFolder => a.logFolder.isSome

end Arguments

inductive ArgumentError
  | invalidValue (name : ArgumentName) (value why : String)
  | missingValue (name : ArgumentName)
  | repeated (name : ArgumentName)
  | unexpected (argument : String)
  | unexpectedValue (flag value : String)
  | missingCorpus
  deriving DecidableEq, Repr

def ArgumentError.message : ArgumentError → String
  | invalidValue name value why => s!"error: invalid value '{value}' for '{name.display}': {why}"
  | missingValue name => s!"error: a value is required for '{name.display}' but none was supplied"
  | repeated name => s!"error: the argument '{name.display}' cannot be used multiple times"
  | unexpected argument => s!"error: unexpected argument '{argument}' found"
  | unexpectedValue flag value =>
    s!"error: unexpected value '{value}' for '{flag}' found; no more were expected"
  | missingCorpus => "error: the following required arguments were not provided:\n  <CORPUS>"

inductive Command
  | help
  | version
  | plot (arguments : Arguments)

namespace Arguments

def coordinates (text : String) (count : Nat) : Except String (List Int) := do
  let values ← (Text.split (· = ',') text.toList).mapM fun part =>
    match Text.integer64 (Text.trim part) with
    | .ok i => .ok i
    | .error e => .error s!"`{String.ofList part}`: {e.message}"
  if values.length = count then return values
  else throw s!"expected {count} comma separated integers, got {values.length}"

def point (text : String) : Except String Point := do
  match ← coordinates text 2 with
  | [x, y] => return ⟨x, y⟩
  | _ => throw ""

def corners (text : String) : Except String (Point × Point) := do
  match ← coordinates text 4 with
  | [ax, ay, bx, by_] => return (⟨ax, ay⟩, ⟨bx, by_⟩)
  | _ => throw ""

def written (name : ArgumentName) (read : String → Except String α) (value : String) :
    Except ArgumentError α :=
  (read value).mapError (.invalidValue name value)

def maxSize : Nat := UInt32.size - 1

/-- A size of 32 bits; a number outside the range is shown as it is understood. -/
def sizeValue (name : ArgumentName) (value : String) : Except ArgumentError Nat := do
  let i ← written name (fun s => (Text.integer64 s.toList).mapError (·.message)) value
  if 0 ≤ i ∧ i ≤ maxSize then return i.toNat
  else throw (.invalidValue name (toString i) s!"{i} is not in 0..={maxSize}")

def pathValue (name : ArgumentName) (value : String) : Except ArgumentError String :=
  if value.isEmpty then .error (.missingValue name) else .ok value

/-- Takes up a value, which an argument can have only once. -/
def set (a : Arguments) (name : ArgumentName) (value : String) : Except ArgumentError Arguments := do
  if a.has name then throw (.repeated name)
  match name with
  | .corpus => return { a with corpus := some (← pathValue name value) }
  | .output => return { a with output := some (← pathValue name value) }
  | .size => return { a with size := some (← sizeValue name value) }
  | .multiplier => return { a with multiplier := some (← sizeValue name value) }
  | .metric => return { a with metric := some value }
  | .click => return { a with click := some (← written name point value) }
  | .drag => return { a with drag := some (← written name corners value) }
  | .probe => return { a with probe := some (← written name point value) }
  | .config => return { a with config := some (← pathValue name value) }
  | .logFolder => return { a with logFolder := some (← pathValue name value) }

end Arguments

/-- An argument that has been named; its value follows, or has been seen and waits to be
taken up. -/
structure PendingArgument where
  name : ArgumentName
  value : Option String := none

namespace Command

def settle (a : Arguments) : Option PendingArgument → Except ArgumentError Arguments
  | none => .ok a
  | some ⟨name, none⟩ => .error (.missingValue name)
  | some ⟨name, some value⟩ => a.set name value

def cutLong (s : List Char) : List Char × Option String :=
  match s.dropWhile (· != '=') with
  | [] => (s, none)
  | _ :: value => (s.takeWhile (· != '='), some (String.ofList value))

inductive Progress
  | more (arguments : Arguments) (pending : Option PendingArgument)
  | answer (command : Command)

def readLong (a : Arguments) (pending : Option PendingArgument) (s : List Char) :
    Except ArgumentError Progress := do
  let (name, value) := cutLong s
  let flag (command : Command) : Except ArgumentError Progress := do
    match value with
    | some v => throw (.unexpectedValue ("--" ++ String.ofList name) v)
    | none =>
      let _ ← settle a pending
      return .answer command
  if name = "help".toList then flag .help
  else if name = "version".toList then flag .version
  else match ArgumentName.ofLong? name, value with
    | none, _ => throw (.unexpected ("--" ++ String.ofList name))
    | some name, none => return .more (← settle a pending) (some ⟨name, none⟩)
    | some name, some v => return .more (← (← settle a pending).set name v) none

/-- Short options, of which only the last can have a value. -/
def readShort (a : Arguments) (pending : Option PendingArgument) : List Char →
    Except ArgumentError Progress
  | 'h' :: _ => do
    let _ ← settle a pending
    return .answer .help
  | 'V' :: _ => do
    let _ ← settle a pending
    return .answer .version
  | ['o'] => return .more (← settle a pending) (some ⟨.output, none⟩)
  | 'o' :: '=' :: value => return .more (← (← settle a pending).set .output (String.ofList value)) none
  | 'o' :: value => return .more (← (← settle a pending).set .output (String.ofList value)) none
  | c :: _ => throw (.unexpected (String.ofList ['-', c]))
  | [] => return .more a pending

/-- An argument that is no option: the value of the one before it, or the corpus. -/
def readPlain (a : Arguments) (pending : Option PendingArgument) (s : String) :
    Except ArgumentError Progress := do
  match pending with
  | some ⟨name, none⟩ => return .more a (some ⟨name, some s⟩)
  | _ =>
    let corpusSeen := a.corpus.isSome || pending.any (·.name = .corpus)
    if corpusSeen then throw (.unexpected s)
    else return .more (← settle a pending) (some ⟨.corpus, some s⟩)

def readTrailing (a : Arguments) (pending : Option PendingArgument) (s : String) :
    Except ArgumentError Progress := do
  let corpusSeen := a.corpus.isSome || pending.any (·.name = .corpus)
  if corpusSeen then throw (.unexpected s)
  else return .more (← settle a pending) (some ⟨.corpus, some s⟩)

def readArgument (a : Arguments) (pending : Option PendingArgument) (trailing : Bool) (s : String) :
    Except ArgumentError Progress :=
  if trailing then readTrailing a pending s
  else match s.toList with
    | '-' :: '-' :: name => readLong a pending name
    | '-' :: c :: rest => readShort a pending (c :: rest)
    | _ => readPlain a pending s

def parseFrom (a : Arguments) (pending : Option PendingArgument) (trailing : Bool) :
    List String → Except ArgumentError Command
  | [] => do
    let a ← settle a pending
    if a.corpus.isNone then throw .missingCorpus
    return .plot a
  | s :: rest => do
    if s = "--" && !trailing then parseFrom a pending true rest
    else match ← readArgument a pending trailing s with
      | .answer command => return command
      | .more a pending => parseFrom a pending trailing rest

def parse (arguments : List String) : Except ArgumentError Command :=
  parseFrom {} none false arguments

def versionText : String := "clonescope 0.0.1"

def helpText : String := "Clone scatter plot renderer

Usage: clonescope [OPTIONS] <CORPUS>

Arguments:
  <CORPUS>  Corpus document (JSON: files, clone pairs, optional metrics)

Options:
  -o, --output <OUTPUT>          Output image; the format follows the extension [default: plot.png]
      --size <SIZE>              Canvas edge in pixels (overrides `[canvas] size`)
      --multiplier <MULTIPLIER>  \"Resize drawing area\" multiplier applied after loading
      --metric <METRIC>          Color clone markers by this metric
      --click <CLICK>            Click at X,Y (selects the innermost directory box)
      --drag <DRAG>              Drag from X0,Y0 to X1,Y1
      --probe <PROBE>            Report the files and offsets under X,Y
      --config <CONFIG>          Optional configuration file path (overrides discovery of `clonescope.toml`)
      --log-dir <LOG_DIR>        Directory for `clonescope.log` [default: .]
  -h, --help                     Print help
  -V, --version                  Print version"

end Command
end ClonePlot
