import SampleDemux.Command.Run

/-!
# The program

The files that a command follows are put into a tree, the command is run over the tree, and what it
changed there is carried out. The program ends with 0 if all went well, with 1 if the command
failed, and with 2 if the arguments name no command.
-/

open SampleDemux

namespace SampleDemux.Program

/-- What is at a place of the system's files. -/
def inspect (location : Location) : IO (Option FileEntry) := do
  match ← (IO.FS.readBinFile location.text).toBaseIO with
  | .ok content => return some (.file content.toList)
  | .error (.inappropriateType ..) => return some .directory
  | .error _ => return none

/-- Puts what some paths lead through into a tree. -/
def fetch (tree : FileTree) (paths : List Path) : IO FileTree :=
  (paths.flatMap tree.places).eraseDups.foldlM (fun tree location => do
    match ← inspect location with
    | none => return tree
    | some entry => return tree.put location entry) tree

/-- Carries out what has changed. -/
def carryOut (before after : FileTree) : IO Unit := do
  for location in after.directoriesSince before do
    IO.FS.createDir location.text
  for (location, content) in after.changedSince before do
    IO.FS.writeBinFile location.text ⟨content.toArray⟩

/-- The tree of all files that a command follows. -/
def gather (command : Command) : IO FileTree := do
  let directory := (← IO.currentDir).toString.toList.splitOn '/'
  let tree : FileTree := { workingDirectory := (Location.trail [] directory).getLastD [] }
  let tree ← fetch tree [command.descriptorPath]
  match tree.readDescriptor command.descriptorPath with
  | .error _ => return tree
  | .ok descriptor => fetch tree (command.paths descriptor)

/-- Runs a command over the system's files. -/
def execute (command : Command) : IO UInt32 := do
  let before ← gather command
  let (outcome, after) := command.run before
  carryOut before after
  match outcome with
  | .ok text =>
    IO.print text
    return 0
  | .error cause =>
    IO.eprintln ("Error: " ++ "\n  because: ".intercalate cause.messages)
    return 1

/-- Answers arguments that name no command. -/
def answerUsage : UsageError → IO UInt32
  | .help => do
    IO.println Invocation.helpText
    return 0
  | .version => do
    IO.println "sampledemux 1"
    return 0
  | error => do
    IO.eprintln s!"Error: {error.message}\n\n{Invocation.helpText}"
    return 2

end SampleDemux.Program

/-- Reads the arguments and runs the command. -/
def main (arguments : List String) : IO UInt32 :=
  match Invocation.ofArguments arguments with
  | .error error => Program.answerUsage error
  | .ok invocation => Program.execute invocation.command
