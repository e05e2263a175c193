import Lox.Proofs.Buffer.Declarations
import Lox.Proofs.Buffer.Expression

/-! Statements in a buffer. What is read with the rules inside begins behind a token, so with fewer tokens
left; a statement takes one token at least, and with that a declaration goes on. -/
namespace Lox.Buffer

open Grammar (Rule bound_of_more)

variable {l : Layout} {strict : Bool} {k b b' : Nat}

theorem tracks_parameters (fits : k ≤ b) (fits' : k ≤ b') (index : Nat) :
    Tracks l false k (Grammar.parameters b index) (parameters b' index) := by
  induction b generalizing k b' index with
  | zero =>
    rw [Grammar.parameters.eq_def, parameters.eq_def]
    exact .limited (.consume fun _ _ _ _ => .accept? .pure fun _ _ _ => by omega)
  | succ b ih =>
    rw [Grammar.parameters.eq_def, parameters.eq_def]
    refine .limited (.consume fun parameter i after _ => .accept? .pure fun _ j more _ => ?_)
    obtain ⟨d, rfl, enough⟩ := bound_of_more fits' after
    exact .bind (ih (k := j) (by omega) (by omega) _) fun _ => .pure

theorem tracks_varDeclaration (fits : k ≤ b) (fits' : k ≤ b') :
    Tracks l true k (Grammar.varDeclaration b) (varDeclaration b') := by
  refine .consume fun name i after _ => .accept? ?_ fun _ j more _ => ?_
  · exact .bind .pure fun value => .consume fun _ _ _ _ => .pure
  · exact .bind (.map (tracks_expression (by omega) (by omega))) fun value =>
      .consume fun _ _ _ _ => .pure

theorem tracks_optionalExpression (fits : k ≤ b) (fits' : k ≤ b') (closing : TokenKind) :
    Tracks l false k (Grammar.optionalExpression closing b) (optionalExpression closing b') := by
  refine .sees fun empty => ?_
  cases empty with
  | true => exact .pure
  | false => exact .map (tracks_expression fits fits')

/-- The semicolon at least is taken. -/
theorem tracks_expressionStatement (fits : k ≤ b) (fits' : k ≤ b') :
    Tracks l strict k (Grammar.expressionStatement b) (expressionStatement b') :=
  .bind (tracks_expression fits fits') fun _ => .consume fun _ _ _ _ => .pure

theorem tracks_printStatement (fits : k ≤ b) (fits' : k ≤ b') :
    Tracks l strict k (Grammar.printStatement b) (printStatement b') :=
  .bind (tracks_expression fits fits') fun _ => .consume fun _ _ _ _ => .pure

theorem tracks_returnStatement (keyword : Token) (fits : k ≤ b) (fits' : k ≤ b') :
    Tracks l strict k (Grammar.returnStatement keyword b) (returnStatement keyword b') :=
  .bind (tracks_optionalExpression fits fits' .semicolon) fun _ => .consume fun _ _ _ _ => .pure

theorem tracks_forInitializer (fits : k ≤ b) (fits' : k ≤ b') :
    Tracks l false k (Grammar.forInitializer b) (forInitializer b') := by
  refine .accept? (.map (tracks_expressionStatement fits fits')) fun t j more _ => ?_
  split
  · exact .pure
  · exact .map (tracks_varDeclaration (by omega) (by omega)).weaken

section

variable {statement : Rule Stmt} {statement' : Reading Stmt} (fits : k ≤ b) (fits' : k ≤ b')
  (body : ∀ j < k, Tracks l false j statement statement')
include fits fits' body

theorem tracks_forStatement :
    Tracks l false k (Grammar.forStatement statement b) (forStatement statement' b') := by
  refine .consume fun _ i after _ => .bind (tracks_forInitializer (by omega) (by omega))
    fun initializer => .bind (tracks_optionalExpression (by omega) (by omega) .semicolon)
    fun condition => .consume fun _ j more _ => ?_
  refine .bind (tracks_optionalExpression (by omega) (by omega) .rightParen) fun increment =>
    .consume fun _ h last _ => ?_
  exact .bind (body h (by omega)) fun _ => .pure

theorem tracks_ifStatement :
    Tracks l false k (Grammar.ifStatement statement b) (ifStatement statement' b') := by
  refine .consume fun _ i after _ => .bind (tracks_expression (by omega) (by omega))
    fun condition => .consume fun _ j more _ => ?_
  refine .bind (body j (by omega)) fun consequent => .accept? .pure fun _ h last _ => ?_
  exact .bind (body h (by omega)) fun _ => .pure

theorem tracks_whileStatement :
    Tracks l false k (Grammar.whileStatement statement b) (whileStatement statement' b') := by
  refine .consume fun _ i after _ => .bind (tracks_expression (by omega) (by omega))
    fun condition => .consume fun _ j more _ => ?_
  exact .bind (body j (by omega)) fun _ => .pure

end

section

variable {declaration : Rule (Option Stmt)} {declaration' : Reading (Option Stmt)}

variable (proceeds : Proceeds l k declaration declaration')
include proceeds

theorem tracks_block (fits : k ≤ b) (fits' : k ≤ b') :
    Tracks l strict k (Grammar.block declaration b) (block declaration' b') :=
  .bind (tracks_declarations (fun _ => rfl) proceeds fits fits') fun _ => .consume fun _ _ _ _ => .pure

/-- The name is taken before anything is repeated. -/
theorem tracks_function (fits : k ≤ b + 1) (fits' : k ≤ b' + 1) (kind : FunctionKind) :
    Tracks l strict k (Grammar.function declaration b kind) (function declaration' b' kind) := by
  refine .consume fun name i after _ => .consume fun _ j more _ => .sees fun empty => ?_
  have body (list : List Token) : Tracks l false j
      (do
        let _ ← Grammar.consume .rightParen .parameterClosing
        let _ ← Grammar.consume .leftBrace (.bodyOpening kind)
        return FunctionDecl.mk name list (← Grammar.block declaration b))
      (do
        let _ ← consume .rightParen .parameterClosing
        let _ ← consume .leftBrace (.bodyOpening kind)
        return ⟨name, list, ← block declaration' b'⟩) := by
    refine .consume fun _ h _ _ => .consume fun _ g _ _ => ?_
    exact .bind (tracks_block (proceeds.mono (by omega)) (by omega) (by omega)) fun _ => .pure
  cases empty with
  | true => exact .bind .pure body
  | false => exact .bind (tracks_parameters (by omega) (by omega) 0) body

variable (fits : k ≤ b) (fits' : k ≤ b')
include fits fits'

theorem tracks_methods : Tracks l false k (Grammar.methods declaration b) (methods declaration' b') := by
  induction b generalizing k b' with
  | zero =>
    rw [Grammar.methods.eq_def, methods.eq_def]
    exact .atEnd (.sees fun _ => .pure) fun _ _ => by omega
  | succ b ih =>
    rw [Grammar.methods.eq_def, methods.eq_def]
    refine .atEnd (.sees fun _ => .pure) fun i some => .sees fun closes => ?_
    cases closes with
    | true => exact .pure
    | false =>
      obtain ⟨d, rfl, enough⟩ := bound_of_more fits' some
      refine .behind (tracks_function proceeds fits fits' .method) fun first j more => ?_
      exact .bind (ih (proceeds.mono (by omega)) (by omega) (by omega)) fun _ => .pure

theorem tracks_classDeclaration :
    Tracks l strict k (Grammar.classDeclaration declaration b) (classDeclaration declaration' b') := by
  refine .consume fun name i after _ => .consume fun _ j more _ => ?_
  exact .bind (tracks_methods (proceeds.mono (by omega)) (by omega) (by omega)) fun _ =>
    .consume fun _ _ _ _ => .pure

end

/-- The rules inside are asked behind a token that the outer ones took. -/
structure Inner.Follows (l : Layout) (k : Nat) (inner : Grammar.Inner) (inner' : Inner) : Prop where
  statement : Tracks l true k inner.statement inner'.statement
  declaration : Proceeds l k inner.declaration inner'.declaration

section

variable {inner : Grammar.Inner} {inner' : Inner} (fits : k ≤ b) (fits' : k ≤ b')
  (within : ∀ j < k, inner'.Follows l j inner)
include fits fits' within

theorem tracks_statementRule :
    Tracks l true k (Grammar.statementRule inner b) (statementRule inner' b') := by
  refine .accept? (tracks_expressionStatement fits fits') fun t j more member => ?_
  have body (i : Nat) (under : i < j) : Tracks l false i inner.statement inner'.statement :=
    (within i (by omega)).statement.weaken
  have enough : j ≤ b := by omega
  have enough' : j ≤ b' := by omega
  simp only [Grammar.statementKinds, List.mem_cons, List.not_mem_nil, or_false] at member
  rcases member with kind | kind | kind | kind | kind | kind <;> simp only [kind]
  · exact tracks_forStatement enough enough' body
  · exact tracks_ifStatement enough enough' body
  · exact tracks_printStatement enough enough'
  · exact tracks_returnStatement t enough enough'
  · exact tracks_whileStatement enough enough' body
  · exact .map (tracks_block (within j (by omega)).declaration enough enough')

theorem tracks_declarationRule :
    Tracks l true k (Grammar.declarationRule inner b) (declarationRule inner' b') := by
  refine .accept? (tracks_statementRule fits fits' within) fun t j more member => ?_
  have enough : j ≤ b := by omega
  have enough' : j ≤ b' := by omega
  have declaration := (within j (by omega)).declaration
  simp only [List.mem_cons, List.not_mem_nil, or_false] at member
  rcases member with kind | kind | kind <;> simp only [kind]
  · exact tracks_classDeclaration declaration enough enough'
  · exact .map (tracks_function declaration (by omega) (by omega) .function)
  · exact (tracks_varDeclaration enough enough').weaken

theorem follows_around : (inner'.around b').Follows l k (inner.around b) :=
  ⟨tracks_statementRule fits fits' within,
    proceeds_declaring (tracks_declarationRule fits fits' within) fits'⟩

end

theorem follows_rules (fits : k ≤ b) (fits' : k ≤ b') : (rules b').Follows l k (Grammar.rules b) := by
  induction b generalizing k b' with
  | zero => cases b' <;> exact follows_around fits fits' fun j under => by omega
  | succ b ih =>
    cases b' with
    | zero => exact follows_around fits fits' fun j under => by omega
    | succ b' => exact follows_around fits fits' fun j under => ih (by omega) (by omega)

end Lox.Buffer
