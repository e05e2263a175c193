import Lox.CommandLine
import Lox.CommandLine.Folder
import Lox.Session
import Lox.Text.Utf8
import Lox.Token.Listing
import Lox.Tree.Form

/-! What the program writes and how it ends, for each thing it can be asked for. -/
namespace Lox

structure Ending where
  exitCode : Nat
  output : String
  /-- What goes to the user apart from the output. -/
  complaints : String
  deriving DecidableEq, Repr

namespace Ending

def lines (texts : List String) : String := String.join (texts.map (· ++ "\n"))

/-- What was written before comes before what an ending writes. -/
def behind (e : Ending) (output complaints : String) : Ending :=
  { e with output := output ++ e.output, complaints := complaints ++ e.complaints }

def version : Ending := ⟨0, "rox 0.1.0\n", ""⟩

def misuse : Ending :=
  ⟨2, "", lines ["usage: rox [--log] [tokenize [--json] FILE | parse FILE | run FILE | repl]"]⟩

/-- A file that is no source. -/
def unreadable (message : String) : Ending := ⟨74, "", message ++ "\n"⟩

def compileErrorCode : Nat := (Outcome.rejected []).exitCode

/-- All tokens are written, even beside errors. -/
def tokenize (listing : Bool) (source : String) : Ending :=
  let (tokens, errors) := scan source
  { exitCode := if errors.isEmpty then 0 else compileErrorCode
    output := lines (if listing then [Token.listing tokens] else tokens.map Token.display)
    complaints := lines (errors.map Diagnostic.text) }

/-- Statements are written only if there is no error. -/
def parse (source : String) : Ending :=
  let (tokens, lexical) := scan source
  let (output, errors) := match (Lox.parse tokens 0).1 with
    | .ok program => (if lexical.isEmpty then lines (program.map Stmt.form) else "", lexical)
    | .error syntactic => ("", lexical ++ syntactic)
  { exitCode := if errors.isEmpty then 0 else compileErrorCode
    output
    complaints := lines (errors.map Diagnostic.text) }

def run (host : Host) (bound : Nat) (source : String) : Ending :=
  let (outcome, s) := (Session.start none).run host bound source
  ⟨outcome.exitCode, s.takeOutput.1, lines (outcome.diagnostics.map Diagnostic.text)⟩

/-- What the user sees before each line. -/
def promptMark : String := "> "

/-- The lines of an input, each with the newline that ends it. The last may have none. -/
def byteLines : List UInt8 → List (List UInt8)
  | [] => []
  | b :: rest =>
    if b = 0x0a then [b] :: byteLines rest
    else match byteLines rest with
      | [] => [[b]]
      | line :: lines => (b :: line) :: lines

/-- The text of a line, without the newline and a carriage return before it. -/
def lineText (line : List UInt8) : Except Text.Utf8Fault String :=
  let bare := match line.reverse with
    | 0x0a :: 0x0d :: rest => rest.reverse
    | 0x0a :: rest => rest.reverse
    | _ => line
  (Text.charactersFrom 0 bare).map String.ofList

/-- What a line typed at the prompt writes: output and complaints. -/
def answer (host : Host) (bound : Nat) (line : String) (s : Session) :
    (String × String) × Session :=
  let (outcome, s) := s.run host bound line
  let (output, s) := s.takeOutput
  ((output, lines (outcome.diagnostics.map Diagnostic.text)), s)

/-- No line comes any more. -/
def farewell : Ending := ⟨0, "\n", ""⟩

/-- A line is no text. -/
def noText : Ending :=
  ⟨1, "",
    "Error: Failed to read from stdin\n\nCaused by:\n    stream did not contain valid UTF-8\n"⟩

/-- Prompts for each line. A line that fails is no end. -/
def converse (host : Host) (bound : Nat) : List (List UInt8) → Session → Ending
  | [], _ => farewell.behind promptMark ""
  | line :: rest, s =>
    match lineText line with
    | .error _ => noText.behind promptMark ""
    | .ok line =>
      let ((output, complaints), s) := answer host bound line s
      (converse host bound rest s).behind (promptMark ++ output) complaints

def prompt (host : Host) (bound : Nat) (input : ByteArray) : Ending :=
  converse host bound (byteLines input.toList) (.start none)

/-- What was read under a file's name as a source, or why it is none. -/
def source (file : String) (read : Except Unread ByteArray) : Except String String := do
  let bytes ← read.mapError (·.message file)
  (Text.ofBytes bytes).mapError fun fault =>
    "File " ++ Text.fileName file ++ " is not valid UTF-8: " ++ fault.text

def withSource (read : String → Except Unread ByteArray) (file : String) (use : String → Ending) :
    Ending :=
  match source file (read file) with
  | .ok text => use text
  | .error message => unreadable message

/-- How a command ends, given the files and the input of the prompt. -/
def ofCommand (host : Host) (bound : Nat) (read : String → Except Unread ByteArray)
    (input : ByteArray) : Command → Ending
  | .tokenize listing file => withSource read file (tokenize listing)
  | .parse file => withSource read file parse
  | .run file => withSource read file (run host bound)
  | .prompt => prompt host bound input

def ofRequest (host : Host) (bound : Nat) (read : String → Except Unread ByteArray)
    (input : ByteArray) : Request → Ending
  | .version => version
  | .misuse => misuse
  | .command c _ => ofCommand host bound read input c

end Ending

end Lox
