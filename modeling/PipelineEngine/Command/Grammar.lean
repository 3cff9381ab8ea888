import PipelineEngine.Fields
import PipelineEngine.Text.Cut
import PipelineEngine.Text.Numeral
import PipelineEngine.Word

/-!
# The grammar of command lines

A command takes arguments, options with values and further commands.  A grammar says
which; `CommandRule.read` reads a command line by it, one word after the other.

An option is written `--name value`, `--name=value`, `-n value`, `-nvalue` or `-n=value`,
at most once on each level.  After `--` every word is an argument.  A word that starts
with `-` and says more is never the value of the option before it.
-/

namespace PipelineEngine

/-- What the value of an option may be. -/
inductive OptionKind where
  | text
  /-- A text that is not empty. -/
  | path
  /-- A number below `2 ^ 64`. -/
  | count
deriving Repr, Inhabited, DecidableEq

namespace OptionKind

/-- Whether a value may be given. -/
def admits : OptionKind → String → Bool
  | .text, _ => true
  | .path, value => value ≠ ""
  | .count, value => (Numeral.natural? 10 value.toList).any (· < Word.bound 64)

end OptionKind

/-- An option. -/
structure OptionRule where
  name : String
  letter : Char
  kind : OptionKind
  about : String
  /-- The value where none is given. -/
  default : Option String
deriving Repr, Inhabited, DecidableEq

/-- An argument, which has to be given. -/
structure ArgumentRule where
  name : String
  about : String
deriving Repr, Inhabited, DecidableEq

/-- A command: its name, what it is about, its arguments and options, and the commands
below it, one of which has to follow. -/
inductive CommandRule where
  | mk (name about : String) (arguments : List ArgumentRule) (options : List OptionRule)
    (commands : List CommandRule)

namespace CommandRule

def name : CommandRule → String
  | .mk name _ _ _ _ => name

def about : CommandRule → String
  | .mk _ about _ _ _ => about

def arguments : CommandRule → List ArgumentRule
  | .mk _ _ arguments _ _ => arguments

def options : CommandRule → List OptionRule
  | .mk _ _ _ options _ => options

def commands : CommandRule → List CommandRule
  | .mk _ _ _ _ commands => commands

/-- The command of a name below a command. -/
def command? (r : CommandRule) (name : String) : Option CommandRule :=
  r.commands.find? (·.name = name)

end CommandRule

/-- Why a command line cannot be read. -/
inductive UsageError where
  | unexpected (word : String)
  | unknownCommand (word : String)
  | missingCommand
  | missingArguments (names : List String)
  | missingValue (option : String)
  | repeated (option : String)
  | invalidValue (option value : String)
deriving Repr, Inhabited, DecidableEq

/-- Why no command follows from a command line. -/
inductive Stop where
  /-- Help was asked for, about the command below those of the given names. -/
  | help (outer : List String) (rule : CommandRule)
  | version
  | usage (error : UsageError)

/-- What has been read of one command. -/
structure Level where
  name : String
  options : Fields String
  /-- The arguments, the first one first. -/
  arguments : List String
deriving Repr, Inhabited, DecidableEq

/-- A command line that was read: its commands, the innermost first. -/
abbrev CommandLine := List Level

namespace CommandLine

/-- The value of an option, which the innermost command has the first word on. -/
def option? (l : CommandLine) (name : String) : Option String :=
  l.findSome? (·.options.get? name)

/-- The names of the commands below the program, the outermost first. -/
def path (l : CommandLine) : List String := (l.reverse.map (·.name)).drop 1

/-- An argument of the innermost command. -/
def argument (l : CommandLine) (n : Nat) : String :=
  ((l.head?.map (·.arguments)).getD [])[n]?.getD ""

end CommandLine

/-- What a word that starts with `-` says: an option, and a value written with it. -/
inductive Flag where
  | long (name : String) (value : Option String)
  | short (letter : Char) (value : Option String)
deriving Repr, Inhabited, DecidableEq

namespace Flag

/-- The flag that a word is, unless it is an argument. -/
def ofWord? (word : String) : Option Flag :=
  match word.toList with
  | '-' :: '-' :: rest =>
    match Text.cut? ['='] rest with
    | some (name, value) => some (.long (String.ofList name) (some (String.ofList value)))
    | none => some (.long (String.ofList rest) none)
  | '-' :: letter :: rest =>
    match rest with
    | [] => some (.short letter none)
    | '=' :: value => some (.short letter (some (String.ofList value)))
    | value => some (.short letter (some (String.ofList value)))
  | _ => none

/-- The option of a command that a flag names. -/
def option? (rule : CommandRule) : Flag → Option OptionRule
  | .long name _ => rule.options.find? (·.name = name)
  | .short letter _ => rule.options.find? (·.letter = letter)

/-- The value written with a flag. -/
def value? : Flag → Option String
  | .long _ value => value
  | .short _ value => value

/-- Whether a flag asks for help. -/
def asksHelp : Flag → Bool
  | .long name value => name = "help" && value.isNone
  | .short letter _ => letter = 'h'

/-- Whether a flag asks for the version. -/
def asksVersion : Flag → Bool
  | .long name value => name = "version" && value.isNone
  | .short letter _ => letter = 'V'

end Flag

namespace Level

/-- A command of which nothing has been read. -/
def empty (name : String) : Level := ⟨name, [], []⟩

/-- The level with the value of an option. -/
def withOption (l : Level) (o : OptionRule) (value : String) : Except Stop Level :=
  if l.options.has o.name then .error (.usage (.repeated o.name))
  else if o.kind.admits value then .ok { l with options := l.options.insert o.name value }
  else .error (.usage (.invalidValue o.name value))

/-- The level with one more argument. -/
def withArgument (l : Level) (rule : CommandRule) (word : String) : Except Stop Level :=
  if l.arguments.length < rule.arguments.length then
    .ok { l with arguments := l.arguments ++ [word] }
  else if rule.commands.isEmpty then .error (.usage (.unexpected word))
  else .error (.usage (.unknownCommand word))

/-- The level with what its command line leaves out. -/
def complete (l : Level) (rule : CommandRule) : Except Stop Level :=
  let missing := rule.arguments.drop l.arguments.length
  if !missing.isEmpty then .error (.usage (.missingArguments (missing.map (·.name))))
  else if !rule.commands.isEmpty then .error (.usage .missingCommand)
  else .ok { l with
    options := rule.options.foldl (fun acc o =>
      match o.default with
      | some value => if acc.has o.name then acc else acc.insert o.name value
      | none => acc) l.options }

end Level

namespace CommandRule

/-- The command that help is asked about by the names of commands. -/
def helpOn (rule : CommandRule) (outer : List String) : List String → Stop
  | [] => .help outer rule
  | word :: rest =>
    match rule.command? word with
    | some below => below.helpOn (outer ++ [rule.name]) rest
    | none => .usage (.unknownCommand word)

/-- Reads the words of a command; `outer` are the commands that it lies below, the
innermost first. -/
def scan (rule : CommandRule) (outer : List Level) (level : Level) :
    List String → Except Stop CommandLine
  | [] => do return (← level.complete rule) :: outer
  | "--" :: rest => do
    return (← (← rest.foldlM (·.withArgument rule ·) level).complete rule) :: outer
  | word :: rest =>
    match rule.command? word with
    | some below => below.scan (level :: outer) (.empty below.name) rest
    | none =>
      if word = "help" && !rule.commands.isEmpty then
        .error (rule.helpOn (outer.reverse.map (·.name)) rest)
      else
        match Flag.ofWord? word with
        | none => do rule.scan outer (← level.withArgument rule word) rest
        | some flag =>
          match flag.option? rule with
          | some o =>
            match flag.value?, rest with
            | some value, rest => do rule.scan outer (← level.withOption o value) rest
            | none, [] => .error (.usage (.missingValue o.name))
            | none, value :: rest =>
              if (Flag.ofWord? value).isSome then .error (.usage (.missingValue o.name))
              else do rule.scan outer (← level.withOption o value) rest
          | none =>
            if flag.asksHelp then .error (.help (outer.reverse.map (·.name)) rule)
            else if flag.asksVersion && outer.isEmpty then .error .version
            else .error (.usage (.unexpected word))
termination_by words => words.length

/-- Reads a command line. -/
def read (rule : CommandRule) (words : List String) : Except Stop CommandLine :=
  rule.scan [] (.empty rule.name) words

end CommandRule

end PipelineEngine
