import CatalogAccess.CommandLine

/-!
# Arguments

The arguments of the program are options, the name of a command, and the options of the command.
Options have a long name and often a letter, and take a value, which follows in the same argument or
in the next one. `Directive.ofArguments?` reads the arguments from left to right up to the first
thing that is wrong with them or asks for help.
-/

namespace CatalogAccess

/-- What the arguments ask for. -/
inductive Directive where
  /-- How the program is used. -/
  | help
  /-- A command, with its files by path. -/
  | invoke (invocation : Invocation String)
deriving Repr

namespace Directive

/-- An option of the command line. -/
structure Flag where
  /-- The long name, with its two hyphens. -/
  long : String
  /-- The letter of the short name. -/
  short : Option Char := none
  /-- Whether the option may be given more than once. -/
  repeatable : Bool := false

/-- The option for the configuration file, which stands before the command or behind it. -/
def configFlag : Flag := { long := "--config", short := some 'c' }

/-- The options of a command, by its name. -/
def flagsOf? (command : String) : Option (List Flag) :=
  if command = "evaluate" then
    some [configFlag, { long := "--request", short := some 'r' },
      { long := "--policies", short := some 'p', repeatable := true }]
  else if command = "compile" then
    some [configFlag, { long := "--criteria", short := some 'f' }]
  else if command = "synthesize" then
    some [configFlag, { long := "--persona" }, { long := "--policy" }]
  else none

/-- The value that follows a letter in one argument, perhaps behind an equals sign. -/
def attachedValue? : List Char → Option String
  | [] => none
  | '=' :: value => some (String.ofList value)
  | value => some (String.ofList value)

/-- The option that an argument names, and the value when it stands in the same argument. -/
def flag? (flags : List Flag) (argument : String) : Option (Flag × Option String) :=
  flags.findSome? fun f =>
    if argument = f.long then some (f, none)
    else
      match Text.dropStart? argument (f.long ++ "="), argument.toList with
      | some value, _ => some (f, some value)
      | none, '-' :: letter :: rest =>
        if f.short = some letter then some (f, attachedValue? rest) else none
      | none, _ => none

/-- Whether an argument asks for help. Behind the letter for help nothing else is looked at. -/
def asksForHelp (argument : String) : Bool :=
  argument == "--help" || Text.startsWith argument "-h"

/-- Whether an argument cannot be the value of the option before it. -/
def looksLikeFlag (argument : String) : Bool :=
  Text.startsWith argument "-" && argument ≠ "-"

/-- What has been read of a list of arguments. -/
structure Options where
  /-- The values of the options, under their long names. -/
  given : List (String × String) := []
  /-- The first word that is no option, with what follows it. -/
  rest : List String := []
  /-- Whether help was asked for. -/
  help : Bool := false

namespace Options

/-- The values given for an option. -/
def values (o : Options) (long : String) : List String :=
  (o.given.filter (·.1 == long)).map Prod.snd

/-- The value given for an option. -/
def value? (o : Options) (long : String) : Option String := (o.values long).head?

/-- The options behind one more; nothing when its value is empty or it must not be given again. -/
def give (o : Options) (f : Flag) (value : String) : Option Options :=
  if !value.isEmpty && (f.repeatable || (o.value? f.long).isNone) then
    some { o with given := (f.long, value) :: o.given }
  else none

/-- The options that a list of arguments starts with. -/
def read (flags : List Flag) : List String → Option Options
  | [] => some {}
  | a :: rest =>
    if asksForHelp a then some { help := true }
    else
      match flag? flags a, rest with
      | some (f, some value), rest => (read flags rest).bind (·.give f value)
      | some (f, none), value :: rest =>
        if looksLikeFlag value then none else (read flags rest).bind (·.give f value)
      | some (_, none), [] => none
      | none, rest => if looksLikeFlag a then none else some { rest := a :: rest }

end Options

/-- The command of a name with its files, all of which must be given. -/
def command? (name : String) (o : Options) : Option (Command String) :=
  if name = "evaluate" then do
    let request ← o.value? "--request"
    if (o.values "--policies").isEmpty then none
    else return .evaluate request (o.values "--policies")
  else if name = "compile" then (o.value? "--criteria").map .compile
  else if name = "synthesize" then do
    let persona ← o.value? "--persona"
    let policy ← o.value? "--policy"
    return .synthesize persona policy
  else none

/-- Whether help can be given on what the words name. -/
def isHelpTopic : List String → Bool
  | [] => true
  | [name] => name == "help" || (flagsOf? name).isSome
  | _ => false

/-- Reads a command from its name and what follows. A configuration file behind the command counts
rather than one before it. -/
def ofCommand? (config : Option String) (name : String) (arguments : List String) :
    Option Directive := do
  let flags ← flagsOf? name
  let options ← Options.read flags arguments
  if options.help then return .help
  let command ← command? name options
  if options.rest.isEmpty then
    return .invoke ⟨(options.value? configFlag.long).or config, command⟩
  else none

/-- Reads the arguments; nothing when they are misused. -/
def ofArguments? (arguments : List String) : Option Directive := do
  let options ← Options.read [configFlag] arguments
  if options.help then return .help
  match options.rest with
  | [] => none
  | name :: rest =>
    if name = "help" then if isHelpTopic rest then return .help else none
    else ofCommand? (options.value? configFlag.long) name rest

/-- How the program is used. -/
def usage : String :=
  "Usage: catalog-access [--config FILE] COMMAND\n\n" ++
  "Commands:\n" ++
  "  evaluate --request FILE --policies FILE [--policies FILE]...\n" ++
  "  compile --criteria FILE\n" ++
  "  synthesize --persona FILE --policy FILE\n" ++
  "  help [COMMAND]"

end Directive

end CatalogAccess
