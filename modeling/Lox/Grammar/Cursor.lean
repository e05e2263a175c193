import Lox.Tree

/-! The reader's place in a list of tokens, and what every rule of the grammar is made of. A rule
may consume tokens, report errors, and give up; what it consumed and reported stays when it gives
up. -/
namespace Lox.Grammar

structure Cursor where
  /-- The tokens not yet consumed. None of them ends the file. -/
  upcoming : List Token
  /-- The end of the file, which stands behind them. -/
  last : Token
  errors : List Diagnostic
  /-- The next unused identity. -/
  fresh : Occurrence
  deriving Repr

/-- Why a rule gives up. -/
inductive Halt where
  /-- The tokens do not fit; an error says so. -/
  | reported
  /-- The bound on rules within rules was too small for the tokens. -/
  | exhausted
  deriving DecidableEq, Repr

abbrev Rule := EStateM Halt Cursor

/-- A list of tokens ends where its first end of file stands, or else on the line of its last
token. -/
def Cursor.start (tokens : List Token) (fresh : Occurrence) : Cursor :=
  let line := (tokens.getLast?.map (·.line)).getD 1
  { upcoming := tokens.takeWhile (·.kind ≠ .eof)
    last := (tokens.find? (·.kind = .eof)).getD (.endOfFile line)
    errors := []
    fresh := fresh }

namespace Cursor

/-- The token the reader looks at. -/
def peek (c : Cursor) : Token := c.upcoming.head?.getD c.last

def sees (c : Cursor) (kind : TokenKind) : Bool := c.upcoming.head?.any (·.kind = kind)

end Cursor

def atEnd : Rule Bool := return (← get).upcoming.isEmpty

def sees (kind : TokenKind) : Rule Bool := return (← get).sees kind

/-- Consumes the next token if it is of one of the kinds. -/
def accept? (kinds : List TokenKind) : Rule (Option Token) := fun c =>
  match c.upcoming with
  | [] => .ok none c
  | t :: rest => if t.kind ∈ kinds then .ok (some t) { c with upcoming := rest } else .ok none c

/-- Reports an error and goes on. -/
def report (t : Token) (e : SyntaxError) : Rule Unit :=
  modify fun c => { c with errors := c.errors ++ [.syntactic t.line t.place e] }

/-- Reports an error and gives up. -/
def fail (t : Token) (e : SyntaxError) : Rule α := do
  report t e
  throw .reported

def consume (kind : TokenKind) (expected : Expected) : Rule Token := do
  match ← accept? [kind] with
  | some t => return t
  | none => fail (← get).peek (.expected expected)

def freshOccurrence : Rule Occurrence :=
  modifyGet fun c => (c.fresh, { c with fresh := c.fresh + 1 })

/-- At most this many arguments or parameters. -/
def maxArity : Nat := 255

end Lox.Grammar
