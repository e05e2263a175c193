import Lox.Grammar.Statement

/-! The grammar as derivations. A derivation says which tokens stand for which tree, one constructor
for each alternative of a rule; a repetition `( op operand )*` is a relation of its own that carries
the tree of what stands to its left. `first` and `next` bound the identities given to occurrences,
which are numbered in the order of the tokens. Nothing here says how a derivation is found. -/
namespace Lox.Grammar

/-- The levels of binary operators, from those that bind least. -/
inductive Precedence where
  | disjunction
  | conjunction
  | equality
  | comparison
  | term
  | factor
  deriving DecidableEq, Repr

/-- What an expression may be made of without parentheses. -/
inductive Rank where
  | assignment
  | binary (p : Precedence)
  | unary
  | call
  | primary
  deriving DecidableEq, Repr

namespace Precedence

def operators : Precedence → List TokenKind
  | .disjunction => [.keyword .orWord]
  | .conjunction => [.keyword .andWord]
  | .equality => [.bangEqual, .equalEqual]
  | .comparison => [.greater, .greaterEqual, .less, .lessEqual]
  | .term => [.minus, .plus]
  | .factor => [.slash, .star]

/-- The rank of the operands. -/
def tighter : Precedence → Rank
  | .disjunction => .binary .conjunction
  | .conjunction => .binary .equality
  | .equality => .binary .comparison
  | .comparison => .binary .term
  | .term => .binary .factor
  | .factor => .unary

def node : Precedence → Expr → Token → Expr → Expr
  | .disjunction | .conjunction => .logical
  | .equality | .comparison | .term | .factor => .binary

end Precedence

mutual

inductive Phrase : Rank → List Token → (first next : Occurrence) → Expr → Prop where
  /-- `assignment → IDENT "=" assignment`. The name is numbered as an expression first. -/
  | assign : name.kind = .identifier → equals.kind = .equal →
      Phrase .assignment ts (n + 1) m value →
      Phrase .assignment (name :: equals :: ts) n (m + 1) (.assign m name value)
  /-- `assignment → call "." IDENT "=" assignment` -/
  | set : Phrase .call os n k object → dot.kind = .dot → name.kind = .identifier →
      equals.kind = .equal → Phrase .assignment ts k m value →
      Phrase .assignment (os ++ dot :: name :: equals :: ts) n m (.set object name value)
  /-- `assignment → logic_or` -/
  | operation : Phrase (.binary .disjunction) ts n m e → Phrase .assignment ts n m e
  /-- `operand ( op operand )*` -/
  | binary : Phrase p.tighter ts n k operand → Operations p operand us k m e →
      Phrase (.binary p) (ts ++ us) n m e
  /-- `unary → ( "!" | "-" ) unary` -/
  | unary : operator.kind ∈ [.bang, .minus] → Phrase .unary ts n m operand →
      Phrase .unary (operator :: ts) n m (.unary operator operand)
  /-- `unary → call` -/
  | plain : Phrase .call ts n m e → Phrase .unary ts n m e
  /-- `call → primary ( "(" arguments? ")" | "." IDENT )*` -/
  | call : Phrase .primary ts n k callee → Suffixes callee us k m e →
      Phrase .call (ts ++ us) n m e
  | constant : (t.kind, c) ∈ [(.keyword .trueWord, Constant.boolean true),
        (.keyword .falseWord, .boolean false), (.keyword .nilWord, .nil)] →
      Phrase .primary [t] n n (.constant c)
  /-- `primary → NUMBER | STRING` -/
  | literal : t.kind ∈ [.number, .string] → Phrase .primary [t] n n (.constant (literalValue t))
  | this : t.kind = .keyword .thisWord → Phrase .primary [t] n (n + 1) (.this n t)
  | read : t.kind = .identifier → Phrase .primary [t] n (n + 1) (.read n t)
  /-- `primary → "(" expression ")"` -/
  | group : opening.kind = .leftParen → Phrase .assignment ts n m e → closing.kind = .rightParen →
      Phrase .primary (opening :: (ts ++ [closing])) n m (.group e)

/-- `( op operand )*` behind `left`, grouped to the left. -/
inductive Operations : Precedence → (left : Expr) → List Token → (first next : Occurrence) →
    Expr → Prop where
  | done : Operations p left [] n n left
  | more : operator.kind ∈ p.operators → Phrase p.tighter ts n k right →
      Operations p (p.node left operator right) us k m e →
      Operations p left (operator :: (ts ++ us)) n m e

/-- `( "(" arguments? ")" | "." IDENT )*` behind `callee`. -/
inductive Suffixes : (callee : Expr) → List Token → (first next : Occurrence) → Expr → Prop where
  | done : Suffixes callee [] n n callee
  | call : opening.kind = .leftParen → Arguments ts n k list → closing.kind = .rightParen →
      list.length ≤ maxArity → Suffixes (.call callee closing list) us k m e →
      Suffixes callee (opening :: (ts ++ closing :: us)) n m e
  | get : dot.kind = .dot → name.kind = .identifier → Suffixes (.get callee name) us n m e →
      Suffixes callee (dot :: name :: us) n m e

/-- `arguments?` -/
inductive Arguments : List Token → (first next : Occurrence) → List Expr → Prop where
  | none : Arguments [] n n []
  | some : ArgumentList ts n m list → Arguments ts n m list

/-- `arguments → expression ( "," expression )*` -/
inductive ArgumentList : List Token → (first next : Occurrence) → List Expr → Prop where
  | one : Phrase .assignment ts n m e → ArgumentList ts n m [e]
  | more : Phrase .assignment ts n k e → comma.kind = .comma → ArgumentList us k m list →
      ArgumentList (ts ++ comma :: us) n m (e :: list)

end

/-- `expression?` -/
inductive OptionalPhrase : List Token → (first next : Occurrence) → Option Expr → Prop where
  | none : OptionalPhrase [] n n none
  | some : Phrase .assignment ts n m e → OptionalPhrase ts n m (some e)

/-- `IDENT ( "," IDENT )*` -/
inductive ParameterList : List Token → List Token → Prop where
  | one : name.kind = .identifier → ParameterList [name] [name]
  | more : name.kind = .identifier → comma.kind = .comma → ParameterList ts list →
      ParameterList (name :: comma :: ts) (name :: list)

/-- `parameters?` -/
inductive Parameters : List Token → List Token → Prop where
  | none : Parameters [] []
  | some : ParameterList ts list → Parameters ts list

/-- `IDENT ( "=" expression )? ";"` -/
inductive Variable : List Token → (first next : Occurrence) → Stmt → Prop where
  | bare : name.kind = .identifier → semicolon.kind = .semicolon →
      Variable [name, semicolon] n n (.var name none)
  | initialized : name.kind = .identifier → equals.kind = .equal →
      Phrase .assignment ts n m e → semicolon.kind = .semicolon →
      Variable (name :: equals :: (ts ++ [semicolon])) n m (.var name (some e))

/-- `varDecl | exprStmt | ";"`, as in the parentheses of a `for`. -/
inductive Initializer : List Token → (first next : Occurrence) → Option Stmt → Prop where
  | none : semicolon.kind = .semicolon → Initializer [semicolon] n n none
  | variable : keyword.kind = .keyword .varWord → Variable ts n m s →
      Initializer (keyword :: ts) n m (some s)
  | expression : Phrase .assignment ts n m e → semicolon.kind = .semicolon →
      Initializer (ts ++ [semicolon]) n m (some (.expression e))

/-- A `for` as a block around the initializer and a `while`, whose body is a block around the body
and the increment. -/
def whileForm (condition : Option Expr) (body : Stmt) : Option Stmt → Option Expr → Stmt
  | none, none => .loop (condition.getD (.constant (.boolean true))) body
  | none, some increment =>
    .loop (condition.getD (.constant (.boolean true))) (.block [body, .expression increment])
  | some initializer, none =>
    .block [initializer, .loop (condition.getD (.constant (.boolean true))) body]
  | some initializer, some increment =>
    .block [initializer,
      .loop (condition.getD (.constant (.boolean true))) (.block [body, .expression increment])]

theorem lowered_eq_whileForm : lowered initializer condition increment body =
    whileForm condition body initializer increment := by
  cases initializer <;> cases increment <;> rfl

/-- How freely an `else` is attached. -/
inductive Attachment where
  /-- To the nearest `if` that has none. -/
  | nearest
  /-- To any `if` before it that the rules allow. -/
  | any
  deriving DecidableEq, Repr

mutual

/-- A statement. It is open if it ends in a statement to which an `else` behind it could belong. -/
inductive Statement (elses : Attachment) : (isOpen : Bool) → List Token →
    (first next : Occurrence) → Stmt → Prop where
  | expression : Phrase .assignment ts n m e → semicolon.kind = .semicolon →
      Statement elses false (ts ++ [semicolon]) n m (.expression e)
  | print : keyword.kind = .keyword .printWord → Phrase .assignment ts n m e →
      semicolon.kind = .semicolon →
      Statement elses false (keyword :: (ts ++ [semicolon])) n m (.print e)
  | ret : keyword.kind = .keyword .returnWord → OptionalPhrase ts n m value →
      semicolon.kind = .semicolon →
      Statement elses false (keyword :: (ts ++ [semicolon])) n m (.ret keyword value)
  | block : opening.kind = .leftBrace → Declarations elses ts n m body →
      closing.kind = .rightBrace →
      Statement elses false (opening :: (ts ++ [closing])) n m (.block body)
  | loop : keyword.kind = .keyword .whileWord → opening.kind = .leftParen →
      Phrase .assignment ts n k condition → closing.kind = .rightParen →
      Statement elses isOpen us k m body →
      Statement elses isOpen (keyword :: opening :: (ts ++ closing :: us)) n m
        (.loop condition body)
  | forLoop : keyword.kind = .keyword .forWord → opening.kind = .leftParen →
      Initializer is n k initializer → OptionalPhrase cs k l condition →
      semicolon.kind = .semicolon → OptionalPhrase us l j increment →
      closing.kind = .rightParen → Statement elses isOpen bs j m body →
      Statement elses isOpen
        (keyword :: opening :: (is ++ (cs ++ semicolon :: (us ++ closing :: bs)))) n m
        (whileForm condition body initializer increment)
  | branch : keyword.kind = .keyword .ifWord → opening.kind = .leftParen →
      Phrase .assignment ts n k condition → closing.kind = .rightParen →
      Statement elses isOpen us k m consequent →
      Statement elses true (keyword :: opening :: (ts ++ closing :: us)) n m
        (.branch condition consequent none)
  | branchElse : keyword.kind = .keyword .ifWord → opening.kind = .leftParen →
      Phrase .assignment ts n k condition → closing.kind = .rightParen →
      Statement elses open' us k l consequent → (elses = .nearest → open' = false) →
      alternate.kind = .keyword .elseWord → Statement elses isOpen vs l m alternative →
      Statement elses isOpen (keyword :: opening :: (ts ++ closing :: (us ++ alternate :: vs))) n m
        (.branch condition consequent (some alternative))

inductive Declaration (elses : Attachment) : List Token → (first next : Occurrence) →
    Stmt → Prop where
  | classDecl : keyword.kind = .keyword .classWord → name.kind = .identifier →
      opening.kind = .leftBrace → Functions elses ts n m list → closing.kind = .rightBrace →
      Declaration elses (keyword :: name :: opening :: (ts ++ [closing])) n m
        (.classDecl name list)
  | function : keyword.kind = .keyword .funWord → Function elses ts n m declaration →
      Declaration elses (keyword :: ts) n m (.function declaration)
  | variable : keyword.kind = .keyword .varWord → Variable ts n m s →
      Declaration elses (keyword :: ts) n m s
  | statement : Statement elses isOpen ts n m s → Declaration elses ts n m s

/-- `declaration*` -/
inductive Declarations (elses : Attachment) : List Token → (first next : Occurrence) →
    List Stmt → Prop where
  | nil : Declarations elses [] n n []
  | cons : Declaration elses ts n k s → Declarations elses us k m list →
      Declarations elses (ts ++ us) n m (s :: list)

/-- `function → IDENT "(" parameters? ")" block` -/
inductive Function (elses : Attachment) : List Token → (first next : Occurrence) →
    FunctionDecl → Prop where
  | intro : name.kind = .identifier → opening.kind = .leftParen → Parameters ts list →
      list.length ≤ maxArity → closing.kind = .rightParen → bodyOpening.kind = .leftBrace →
      Declarations elses us n m body → bodyClosing.kind = .rightBrace →
      Function elses
        (name :: opening :: (ts ++ closing :: bodyOpening :: (us ++ [bodyClosing]))) n m
        ⟨name, list, body⟩

/-- `function*` -/
inductive Functions (elses : Attachment) : List Token → (first next : Occurrence) →
    List FunctionDecl → Prop where
  | nil : Functions elses [] n n []
  | cons : Function elses ts n k f → Functions elses us k m list →
      Functions elses (ts ++ us) n m (f :: list)

end

/-- Tokens that make a program, however its `else`s are attached. -/
def Derivable (tokens : List Token) (first : Occurrence) : Prop :=
  ∃ next program, Declarations .any tokens first next program

end Lox.Grammar
