import SampleDemux.Command.Grammar
import SampleDemux.Output.Target

/-!
# Commands

There are three commands: one writes the streams of a recording into files, one lists what a
descriptor says, and one prints statistics of the streams. Options of the log may come before or
after the name of the command; where they come in both places, the later ones count.
-/

namespace SampleDemux

/-- Which messages go into the log. -/
inductive LogLevel where
  /-- None. -/
  | off
  /-- Errors. -/
  | error
  /-- Warnings, and the ones before. -/
  | warn
  /-- What is going on, and the ones before. -/
  | info
  /-- Details, and the ones before. -/
  | debug
  /-- All. -/
  | trace
  deriving DecidableEq, Repr, Inhabited

namespace LogLevel

/-- Every level. -/
def all : List LogLevel := [off, error, warn, info, debug, trace]

/-- The name of the level. -/
def name : LogLevel → String
  | off => "off"
  | error => "error"
  | warn => "warn"
  | info => "info"
  | debug => "debug"
  | trace => "trace"

/-- The level of a name. -/
def ofName? (text : String) : Option LogLevel := all.find? (·.name == text)

end LogLevel

/-- How messages are written. -/
inductive LogFormat where
  /-- As lines for people. -/
  | plain
  /-- As one record a line. -/
  | json
  deriving DecidableEq, Repr, Inhabited

namespace LogFormat

/-- Every format. -/
def all : List LogFormat := [plain, json]

/-- The name of the format. -/
def name : LogFormat → String
  | plain => "plain"
  | json => "json"

/-- The format of a name. -/
def ofName? (text : String) : Option LogFormat := all.find? (·.name == text)

end LogFormat

/-- A recording that is to be read. -/
structure Recording where
  /-- The file with the descriptor. -/
  descriptor : Path
  /-- Where the data files are, if not beside the descriptor. -/
  pathPrefix : Option Path := none
  /-- Whether lanes are read by turns. -/
  parallel : Bool := false
  deriving DecidableEq, Repr

/-- The directory of the data files: the given one, or the one of the descriptor. -/
def Recording.directory (recording : Recording) : Path :=
  recording.pathPrefix.getD (recording.descriptor.parent?.getD ⟨""⟩)

/-- A command. -/
inductive Command where
  /-- Writes streams into files. -/
  | convert (recording : Recording) (outputPath : Option Path) (container : Container)
    (sampleType : SampleType)
  /-- Lists what a descriptor says, with every unit if that is wanted. -/
  | info (descriptor : Path) (units : Bool)
  /-- Prints statistics, without histograms if that is wanted. -/
  | stats (recording : Recording) (noHistogram : Bool)
  deriving DecidableEq, Repr

/-- A command and what goes for every command. -/
structure Invocation where
  /-- Which messages go into the log. -/
  logLevel : LogLevel := .info
  /-- How messages are written. -/
  logFormat : LogFormat := .plain
  /-- Whether progress is shown. -/
  progress : Bool := false
  /-- The command. -/
  command : Command
  deriving DecidableEq, Repr

namespace Invocation

/-- The options that go for every command. -/
def commonOptions : List ArgumentRule := [
  ⟨"loglevel", .oneOf (LogLevel.all.map (·.name))⟩,
  ⟨"log-format", .oneOf (LogFormat.all.map (·.name))⟩,
  ⟨"progress", .flag⟩]

/-- The options of commands that read a recording. -/
def recordingOptions : List ArgumentRule := [⟨"path-prefix", .path⟩, ⟨"parallel", .flag⟩]

/-- The operand of every command. -/
def descriptorOperand : ArgumentRule := ⟨"DESCRIPTOR", .path⟩

/-- The arguments before a command. -/
def grammar : Grammar where
  options := commonOptions
  commands := ["convert", "info", "stats", "help"]
  hasVersion := true

/-- The arguments of a command. -/
def commandGrammar (options : List ArgumentRule) : Grammar where
  options := options ++ commonOptions
  operand := some descriptorOperand

/-- What the arguments look like. -/
def helpText : String :=
  "\n".intercalate [
    "Usage: sampledemux [OPTIONS] COMMAND",
    "",
    "  convert DESCRIPTOR [--path-prefix DIR] [--parallel] [--output-path BASE]",
    "          [--format raw|w64] [--sample-type i8|i16|i32|f32]",
    "  info    DESCRIPTOR [--units]",
    "  stats   DESCRIPTOR [--path-prefix DIR] [--parallel] [--no-histogram]",
    "",
    "  --loglevel off|error|warn|info|debug|trace",
    "  --log-format plain|json",
    "  --progress"]

/-- Whether a flag is given. -/
def isGiven (given : Given) (name : String) : Bool := (given.lookup name).isSome

/-- The path that is given for an argument. -/
def path? (given : Given) (name : String) : Option Path := (given.lookup name).map Path.mk

/-- The choice that is given for an argument, or else the usual one. -/
def choice {α : Type} (given : Given) (name : String) (ofName? : String → Option α) (usual : α) :
    α :=
  ((given.lookup name).bind ofName?).getD usual

/-- The descriptor that is given. -/
def descriptorOf (given : Given) : Path := (path? given descriptorOperand.name).getD ⟨""⟩

/-- The recording that is given. -/
def recordingOf (given : Given) : Recording where
  descriptor := descriptorOf given
  pathPrefix := path? given "path-prefix"
  parallel := isGiven given "parallel"

/-- Reads the arguments of a command. -/
def readCommand (name : String) (arguments : List String) :
    Except UsageError (Command × Given) := do
  if name = "convert" then
    let given ← (commandGrammar (recordingOptions ++ [
      ⟨"output-path", .path⟩,
      ⟨"format", .oneOf (Container.all.map (·.name))⟩,
      ⟨"sample-type", .oneOf (SampleType.all.map (·.name))⟩])).readAll arguments
    return (.convert (recordingOf given) (path? given "output-path")
      (choice given "format" Container.ofName? .raw)
      (choice given "sample-type" SampleType.ofName? .int16), given)
  else if name = "info" then
    let given ← (commandGrammar [⟨"units", .flag⟩]).readAll arguments
    return (.info (descriptorOf given) (isGiven given "units"), given)
  else if name = "stats" then
    let given ← (commandGrammar (recordingOptions ++ [⟨"no-histogram", .flag⟩])).readAll arguments
    return (.stats (recordingOf given) (isGiven given "no-histogram"), given)
  else
    match arguments with
    | [] => throw .help
    | [topic] => throw (if grammar.commands.contains topic then .help else .unknownCommand)
    | _ => throw .unknownCommand

/-- Reads all arguments. -/
def ofArguments (arguments : List String) : Except UsageError Invocation := do
  match ← grammar.read {} arguments with
  | (state, none) =>
    let state ← Grammar.settle state
    throw (if state.given.isEmpty then .nothingGiven else .missingCommand)
  | (state, some (name, rest)) =>
    let (command, given) ← readCommand name rest
    let state ← Grammar.settle state
    let given := given ++ state.given
    return {
      logLevel := choice given "loglevel" LogLevel.ofName? .info
      logFormat := choice given "log-format" LogFormat.ofName? .plain
      progress := isGiven given "progress"
      command }

end Invocation

end SampleDemux
