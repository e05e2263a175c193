/-! What the arguments of the program ask for. Options may stand before, between and behind
operands, up to `--`; behind it all arguments are operands. -/
namespace Lox

inductive Command where
  | tokenize (listing : Bool) (file : String)
  | parse (file : String)
  | run (file : String)
  | prompt
  deriving DecidableEq, Repr

def Command.file? : Command → Option String
  | .tokenize _ file => some file
  | .parse file => some file
  | .run file => some file
  | .prompt => none

inductive Request where
  | version
  /-- A command, and whether a log is to be kept. -/
  | command (c : Command) (log : Bool)
  /-- The arguments fit no command. -/
  | misuse
  deriving DecidableEq, Repr

/-- The arguments of one command, apart. -/
structure Operands where
  options : List String
  operands : List String
  deriving DecidableEq, Repr

namespace Operands

/-- A lone `-` is an operand. -/
def isOption (argument : String) : Bool := argument.startsWith "-" && argument ≠ "-"

/-- Takes arguments apart, unless an option is not known or repeated. -/
def ofArguments (known : List String) : List String → Option Operands
  | [] => some ⟨[], []⟩
  | argument :: rest =>
    if argument = "--" then some ⟨[], rest⟩
    else do
      let others ← ofArguments known rest
      if !isOption argument then some { others with operands := argument :: others.operands }
      else if argument ∈ known && argument ∉ others.options then
        some { others with options := argument :: others.options }
      else none

/-- The only operand, which is not empty. -/
def file? (o : Operands) : Option String :=
  match o.operands with
  | [file] => if file.isEmpty then none else some file
  | _ => none

end Operands

def logOption : String := "--log"

def listingOption : String := "--json"

def Command.ofOperands? (name : String) (o : Operands) : Option Command :=
  match name with
  | "tokenize" => (tokenize (listingOption ∈ o.options)) <$> o.file?
  | "parse" => parse <$> o.file?
  | "run" => run <$> o.file?
  | "repl" => if o.operands.isEmpty then some prompt else none
  | _ => none

/-- The options of a command, beside that for the log. -/
def Command.knownOptions (name : String) : List String :=
  logOption :: if name = "tokenize" then [listingOption] else []

namespace Request

/-- The arguments from a command's name on. -/
def ofCommand (log : Bool) (name : String) (arguments : List String) : Request :=
  let command? := do
    let o ← Operands.ofArguments (Command.knownOptions name) arguments
    let c ← Command.ofOperands? name o
    return Request.command c (log || logOption ∈ o.options)
  command?.getD .misuse

/-- The arguments, read from the left up to the name of a command. Without one the user is
prompted. -/
def ofArguments (log : Bool) : List String → Request
  | [] => .command .prompt log
  | argument :: rest =>
    if argument = "--" then if rest.isEmpty then .command .prompt log else .misuse
    else if argument = logOption then if log then .misuse else ofArguments true rest
    else if argument = "--version" || argument.startsWith "-V" then .version
    else ofCommand log argument rest

end Request

end Lox
