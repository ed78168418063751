/-!
# Arguments of commands

The arguments of a command are read from left to right. An option takes a value, in the same
argument after an equals sign or in the next one, or none; an operand stands alone; after two
hyphens only operands follow. A value is checked when the next argument comes, so an argument that
nobody knows is found before a bad value in front of it.
-/

namespace SampleDemux

/-- What is wrong with arguments, or asked for instead of a command. -/
inductive UsageError where
  /-- The help text is asked for. -/
  | help
  /-- The version is asked for. -/
  | version
  /-- There is nothing at all, so help is in place. -/
  | nothingGiven
  /-- No command is named. -/
  | missingCommand
  /-- A command of this name does not exist. -/
  | unknownCommand
  /-- An argument that nobody knows. -/
  | unknownArgument
  /-- An argument that has to be there is not. -/
  | missingArgument
  /-- A value is not allowed, or missing. -/
  | invalidValue
  /-- An option is given twice. -/
  | conflict
  /-- A value for an option that takes none. -/
  | unwantedValue
  deriving DecidableEq, Repr

/-- The text of a usage error. -/
def UsageError.message : UsageError → String
  | help | version => ""
  | nothingGiven => "arguments are needed"
  | missingCommand => "a command is needed"
  | unknownCommand => "there is no such command"
  | unknownArgument => "there is no such argument"
  | missingArgument => "an argument is missing"
  | invalidValue => "a value is missing or not allowed"
  | conflict => "an option is given twice"
  | unwantedValue => "a value is given to an option without values"

/-- What values an argument has. -/
inductive ValueRule where
  /-- None. -/
  | flag
  /-- A path, which is not empty. -/
  | path
  /-- One of some names. -/
  | oneOf (names : List String)
  deriving DecidableEq, Repr

/-- Whether a value is allowed. -/
def ValueRule.allows (rule : ValueRule) (value : String) : Bool :=
  match rule with
  | flag => true
  | path => !value.isEmpty
  | oneOf names => names.contains value

/-- An argument that a command knows. -/
structure ArgumentRule where
  /-- The name, which an option has after two hyphens. -/
  name : String
  /-- What values it has. -/
  values : ValueRule
  deriving DecidableEq, Repr

/-- What arguments a command knows. -/
structure Grammar where
  /-- The options. -/
  options : List ArgumentRule
  /-- The operand, if there is one. -/
  operand : Option ArgumentRule := none
  /-- Names of the commands below this one. -/
  commands : List String := []
  /-- Whether the version can be asked for. -/
  hasVersion : Bool := false

/-- Values by the names of their arguments. -/
abbrev Given := List (String × String)

namespace Grammar

/-- An argument whose value is not checked yet. -/
structure Pending where
  /-- The argument. -/
  rule : ArgumentRule
  /-- Its value, if it has come. -/
  value : Option String := none

/-- The state of reading arguments. -/
structure State where
  /-- Arguments that were checked. -/
  given : Given := []
  /-- The argument that is not checked yet. -/
  pending : Option Pending := none
  /-- Whether the operand has come. -/
  hasOperand : Bool := false
  /-- Whether only operands follow. -/
  onlyOperands : Bool := false

/-- Checks an argument with its value. -/
def accept (state : State) (rule : ArgumentRule) (value : String) : Except UsageError State :=
  if (state.given.lookup rule.name).isSome then .error .conflict
  else if rule.values.allows value then
    .ok { state with given := (rule.name, value) :: state.given }
  else .error .invalidValue

/-- Checks the argument that is not checked yet. -/
def settle (state : State) : Except UsageError State :=
  match state.pending with
  | none => .ok state
  | some ⟨_, none⟩ => .error .invalidValue
  | some ⟨rule, some value⟩ => accept { state with pending := none } rule value

/-- Whether the next argument may be the value of an option. -/
def awaitsValue (state : State) : Bool := state.pending.any (·.value.isNone)

/-- Splits an option at its equals sign. -/
def splitValue (chars : List Char) : String × Option String :=
  let name := String.ofList (chars.takeWhile (· ≠ '='))
  match chars.dropWhile (· ≠ '=') with
  | [] => (name, none)
  | _ :: value => (name, some (String.ofList value))

/-- Takes what is asked for instead of a command. -/
def ask (state : State) (answer : UsageError) (value : Option String) :
    Except UsageError State :=
  if value.isSome then .error .unwantedValue
  else (settle state).bind fun _ => .error answer

/-- Takes an option. -/
def takeOption (grammar : Grammar) (state : State) (name : String) (value : Option String) :
    Except UsageError State :=
  match grammar.options.find? (·.name == name) with
  | some rule =>
    match rule.values, value with
    | .flag, some _ => .error .unwantedValue
    | .flag, none => (settle state).bind fun state => accept state rule ""
    | _, some value => (settle state).bind fun state => accept state rule value
    | _, none => (settle state).map fun state => { state with pending := some { rule } }
  | none =>
    if name = "help" then ask state .help value
    else if name = "version" ∧ grammar.hasVersion then ask state .version value
    else .error .unknownArgument

/-- Takes a short option. -/
def takeShort (grammar : Grammar) (state : State) (letter : Option Char) :
    Except UsageError State :=
  if letter = some 'h' then ask state .help none
  else if letter = some 'V' ∧ grammar.hasVersion then ask state .version none
  else .error .unknownArgument

/-- Takes an operand. -/
def takeOperand (grammar : Grammar) (state : State) (value : String) : Except UsageError State :=
  match grammar.operand, state.hasOperand with
  | some rule, false =>
    (settle state).map fun state =>
      { state with pending := some { rule, value := some value }, hasOperand := true }
  | _, _ =>
    if grammar.commands.isEmpty || (state.onlyOperands && grammar.commands.contains value) then
      .error .unknownArgument
    else .error .unknownCommand

/-- Takes one argument that names no command. -/
def take (grammar : Grammar) (state : State) (argument : String) : Except UsageError State :=
  if state.onlyOperands then grammar.takeOperand state argument
  else
    match argument.toList with
    | ['-', '-'] => .ok { state with onlyOperands := true }
    | '-' :: '-' :: chars =>
      let (name, value) := splitValue chars
      grammar.takeOption state name value
    | '-' :: letter :: _ => grammar.takeShort state (some letter)
    | _ =>
      match state.pending with
      | some ⟨rule, none⟩ =>
        .ok { state with pending := some { rule, value := some argument } }
      | _ => grammar.takeOperand state argument

/-- Reads arguments up to the first that names a command. The result is the state, that command, and
what follows it. -/
def read (grammar : Grammar) :
    State → List String → Except UsageError (State × Option (String × List String))
  | state, [] => .ok (state, none)
  | state, argument :: rest =>
    if !state.onlyOperands && !awaitsValue state && grammar.commands.contains argument then
      .ok (state, some (argument, rest))
    else
      match grammar.take state argument with
      | .error error => .error error
      | .ok state => read grammar state rest

/-- Reads all arguments of a command that has no commands below it. -/
def readAll (grammar : Grammar) (arguments : List String) : Except UsageError Given := do
  let (state, _) ← grammar.read {} arguments
  let state ← settle state
  if grammar.operand.isSome && !state.hasOperand then throw .missingArgument
  return state.given

end Grammar

end SampleDemux
