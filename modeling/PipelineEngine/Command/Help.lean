import PipelineEngine.Command.Grammar

/-!
# Help

The text that explains a command, and the messages of command lines that cannot be read.
In a list every name is padded to the longest one.
-/

namespace PipelineEngine

namespace ArgumentRule

/-- The name that stands for an argument or for the value of an option. -/
def shownName (name : String) : String :=
  "<" ++ String.ofList (name.toList.map fun c => if c = '-' then '_' else c.toUpper) ++ ">"

def shown (a : ArgumentRule) : String := shownName a.name

end ArgumentRule

/-- A text with blanks behind it up to a width. -/
def padRight (width : Nat) (s : String) : String :=
  s ++ String.ofList (List.replicate (width - s.length) ' ')

namespace Help

/-- The lines of a list of names with what they stand for. -/
def table (rows : List (String × String)) : List String :=
  let width := rows.foldl (fun w (name, _) => max w name.length) 0
  rows.map fun (name, about) => "  " ++ padRight width name ++ "  " ++ about

/-- A heading with lines below it, and an empty line before it. -/
def block (heading : String) (lines : List String) : List String :=
  if lines.isEmpty then [] else "" :: heading :: lines

def optionRow (o : OptionRule) : String × String :=
  ("-" ++ String.singleton o.letter ++ ", --" ++ o.name ++ " " ++ ArgumentRule.shownName o.name,
    match o.default with
    | some value => o.about ++ " [default: " ++ value ++ "]"
    | none => o.about)

/-- The options that every command has; the program itself also shows its version. -/
def commonRows (outermost : Bool) : List (String × String) :=
  [("-h, --help", "Print help")] ++ if outermost then [("-V, --version", "Print version")] else []

/-- The commands below a command; where there are any, help on them is one more. -/
def commandRows (rule : CommandRule) : List (String × String) :=
  if rule.commands.isEmpty then []
  else
    rule.commands.map (fun c => (c.name, c.about)) ++
      [("help", "Print this message or the help of the given subcommand(s)")]

/-- How a command is written. -/
def usage (outer : List String) (rule : CommandRule) : String :=
  " ".intercalate ((outer ++ [rule.name, "[OPTIONS]"]) ++ rule.arguments.map (·.shown) ++
    if rule.commands.isEmpty then [] else ["<COMMAND>"])

/-- The lines that explain a command. -/
def lines (outer : List String) (rule : CommandRule) : List String :=
  [rule.about, "", "Usage: " ++ usage outer rule] ++
    block "Commands:" (table (commandRows rule)) ++
    block "Arguments:" (table (rule.arguments.map fun a => (a.shown, a.about))) ++
    block "Options:" (table (rule.options.map optionRow ++ commonRows outer.isEmpty))

end Help

namespace UsageError

def message : UsageError → String
  | .unexpected word => "unexpected argument '" ++ word ++ "' found"
  | .unknownCommand word => "unrecognized subcommand '" ++ word ++ "'"
  | .missingCommand => "a subcommand is required but one was not provided"
  | .missingArguments names =>
    "the following required arguments were not provided: " ++
      " ".intercalate (names.map ArgumentRule.shownName)
  | .missingValue option => "a value is required for '--" ++ option ++ "' but none was supplied"
  | .repeated option => "the argument '--" ++ option ++ "' cannot be used multiple times"
  | .invalidValue option value => "invalid value '" ++ value ++ "' for '--" ++ option ++ "'"

end UsageError

end PipelineEngine
