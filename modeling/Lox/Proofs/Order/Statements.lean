import Lox.Proofs.Order.Reading

/-! The order of the errors of statements. Nothing in a statement is reported late, and where tokens
are skipped behind an error none of them is on an earlier line. -/
namespace Lox.Grammar

theorem tidies_within (bound : Nat) : Tidies false (expression bound) :=
  (tidies_expression bound).weaken

theorem boundary_suffix (skipped : Token) (ts : List Token) : boundary skipped ts <:+ ts := by
  induction ts generalizing skipped with
  | nil => exact List.suffix_rfl
  | cons t rest ih =>
    rw [boundary]
    split
    · exact List.suffix_rfl
    · exact (ih t).trans (List.suffix_cons t rest)

theorem tidies_resume : Tidies false resume := by
  intro c tidy
  obtain ⟨upcoming, last, errors, fresh⟩ := c
  have tidied (rest : List Token) (behind : rest <:+ upcoming) :
      Leaves false ⟨upcoming, last, errors, fresh⟩ (.ok () ⟨rest, last, errors, fresh⟩) :=
    ⟨tidy.drop behind, nofun⟩
  cases upcoming with
  | nil => exact tidied [] List.suffix_rfl
  | cons t rest => exact tidied _ ((boundary_suffix t rest).trans (List.suffix_cons t rest))

theorem tidies_recovering {rule : Rule α} (tidies : Tidies false rule) :
    Tidies false (recovering rule) := by
  intro c tidy
  have leaves := tidies c tidy
  rw [recovering]
  generalize rule c = r at leaves ⊢
  cases r with
  | ok a c' => exact leaves
  | error halt c' =>
    cases halt with
    | reported =>
      have dropped : Tidies false (resume >>= fun _ => pure (none : Option α)) :=
        .bind tidies_resume fun _ => .pure
      exact (dropped c' leaves).since nofun
    | exhausted => exact leaves

theorem tidies_parameters (bound index : Nat) : Tidies false (parameters bound index) := by
  induction bound generalizing index with
  | zero =>
    rw [parameters]
    exact .limited nofun (.consume fun name => .accept? .pure fun _ _ => .throw)
  | succ bound ih =>
    rw [parameters]
    refine .limited nofun (.consume fun name => .accept? .pure fun _ _ => ?_)
    exact .bind (ih _) fun list => .pure

section

variable {declaration : Rule (Option Stmt)} (tidies : Tidies false declaration)
include tidies

theorem tidies_declarations (more : Cursor → Bool) (bound : Nat) :
    Tidies false (declarations declaration more bound) := by
  induction bound with
  | zero =>
    rw [declarations.eq_def]
    refine .atEnd fun b => .get fun c => ?_
    split
    · exact .pure
    · exact .throw
  | succ bound ih =>
    rw [declarations.eq_def]
    refine .atEnd fun b => .get fun c => ?_
    split
    · exact .pure
    · exact .bind tidies fun first => .bind ih fun rest => .pure

theorem tidies_block (bound : Nat) : Tidies false (block declaration bound) :=
  .bind (tidies_declarations tidies _ bound) fun _ => .consume fun _ => .pure

theorem tidies_function (bound : Nat) (kind : FunctionKind) :
    Tidies false (function declaration bound kind) := by
  refine .consume fun name => .consume fun _ => .sees fun empty => ?_
  have body (list : List Token) : Tidies false (do
      let _ ← consume .rightParen .parameterClosing
      let _ ← consume .leftBrace (.bodyOpening kind)
      return FunctionDecl.mk name list (← block declaration bound)) :=
    .consume fun _ => .consume fun _ => .bind (tidies_block tidies bound) fun _ => .pure
  cases empty with
  | true => exact .bind .pure body
  | false => exact .bind (tidies_parameters bound 0) body

theorem tidies_methods (bound : Nat) : Tidies false (methods declaration bound) := by
  induction bound with
  | zero =>
    rw [methods.eq_def]
    refine .atEnd fun b => .sees fun b' => ?_
    split
    · exact .pure
    · exact .throw
  | succ bound ih =>
    rw [methods.eq_def]
    refine .atEnd fun b => .sees fun b' => ?_
    split
    · exact .pure
    · exact .bind (tidies_function tidies bound .method) fun first => .bind ih fun rest => .pure

theorem tidies_classDeclaration (bound : Nat) : Tidies false (classDeclaration declaration bound) :=
  .consume fun _ => .consume fun _ =>
    .bind (tidies_methods tidies bound) fun _ => .consume fun _ => .pure

end

theorem tidies_varDeclaration (bound : Nat) : Tidies false (varDeclaration bound) := by
  refine .consume fun name => .accept? ?_ fun _ _ => ?_
  · exact .bind .pure fun value => .consume fun _ => .pure
  · exact .bind (.map (tidies_within bound)) fun value => .consume fun _ => .pure

theorem tidies_optionalExpression (closing : TokenKind) (bound : Nat) :
    Tidies false (optionalExpression closing bound) := by
  refine .sees fun b => ?_
  split
  · exact .pure
  · exact .map (tidies_within bound)

theorem tidies_expressionStatement (bound : Nat) : Tidies false (expressionStatement bound) :=
  .bind (tidies_within bound) fun _ => .consume fun _ => .pure

theorem tidies_forInitializer (bound : Nat) : Tidies false (forInitializer bound) := by
  refine .accept? (.map (tidies_expressionStatement bound)) fun t _ => ?_
  dsimp only
  split
  · exact .pure
  · exact .map (tidies_varDeclaration bound)

section

variable {statement : Rule Stmt} (tidies : Tidies false statement)
include tidies

theorem tidies_forStatement (bound : Nat) : Tidies false (forStatement statement bound) := by
  refine .consume fun _ => .bind (tidies_forInitializer bound) fun initializer => ?_
  refine .bind (tidies_optionalExpression .semicolon bound) fun condition => .consume fun _ => ?_
  refine .bind (tidies_optionalExpression .rightParen bound) fun increment => .consume fun _ => ?_
  exact .bind tidies fun body => .pure

theorem tidies_ifStatement (bound : Nat) : Tidies false (ifStatement statement bound) := by
  refine .consume fun _ => .bind (tidies_within bound) fun condition => ?_
  refine .consume fun _ => .bind tidies fun consequent => .accept? .pure fun _ _ => ?_
  exact .bind tidies fun alternative => .pure

theorem tidies_whileStatement (bound : Nat) : Tidies false (whileStatement statement bound) :=
  .consume fun _ => .bind (tidies_within bound) fun _ =>
    .consume fun _ => .bind tidies fun _ => .pure

end

theorem tidies_printStatement (bound : Nat) : Tidies false (printStatement bound) :=
  .bind (tidies_within bound) fun _ => .consume fun _ => .pure

theorem tidies_returnStatement (keyword : Token) (bound : Nat) :
    Tidies false (returnStatement keyword bound) :=
  .bind (tidies_optionalExpression .semicolon bound) fun _ => .consume fun _ => .pure

section

variable {inner : Inner} (statement : Tidies false inner.statement)
  (declaration : Tidies false inner.declaration)
include statement declaration

theorem tidies_statementRule (bound : Nat) : Tidies false (statementRule inner bound) := by
  refine .accept? (tidies_expressionStatement bound) fun t _ => ?_
  dsimp only
  split
  · exact tidies_forStatement statement bound
  · exact tidies_ifStatement statement bound
  · exact tidies_printStatement bound
  · exact tidies_returnStatement t bound
  · exact tidies_whileStatement statement bound
  · exact .map (tidies_block declaration bound)

theorem tidies_declarationRule (bound : Nat) : Tidies false (declarationRule inner bound) := by
  refine .accept? (tidies_statementRule statement declaration bound) fun t _ => ?_
  dsimp only
  split
  · exact tidies_classDeclaration declaration bound
  · exact .map (tidies_function declaration bound .function)
  · exact tidies_varDeclaration bound

end

theorem tidies_rules (bound : Nat) :
    Tidies false (rules bound).statement ∧ Tidies false (rules bound).declaration := by
  induction bound with
  | zero =>
    constructor
    · exact tidies_statementRule .throw .throw 0
    · exact tidies_recovering (tidies_declarationRule .throw .throw 0)
  | succ bound ih =>
    constructor
    · exact tidies_statementRule ih.1 ih.2 (bound + 1)
    · exact tidies_recovering (tidies_declarationRule ih.1 ih.2 (bound + 1))

theorem tidies_program (bound : Nat) : Tidies false (program bound) :=
  tidies_declarations (tidies_rules bound).2 _ bound

/-- A file ends on no earlier line than its tokens are on, also where its end has to be made up. -/
theorem start_tidy {tokens : List Token} (ascending : Ascending tokens) (fresh : Occurrence) :
    (Cursor.start tokens fresh).Tidy := by
  refine ⟨?_, by simp [Cursor.start], by simp [Cursor.start], by simp [Cursor.start]⟩
  have before (t : Token) (member : t ∈ tokens.takeWhile (·.kind ≠ .eof)) :
      t.line ≤ (Cursor.start tokens fresh).last.line := by
    rw [Cursor.start]
    dsimp only
    cases found : tokens.find? (·.kind = .eof) with
    | none =>
      have inside : t ∈ tokens := (List.takeWhile_sublist _).subset member
      obtain ⟨front, last, rfl⟩ : ∃ front last, tokens = front ++ [last] :=
        ⟨_, _, (List.dropLast_append_getLast (List.ne_nil_of_mem inside)).symm⟩
      rw [List.getLast?_concat]
      rcases List.mem_append.1 inside with first | here
      · exact (List.pairwise_append.1 ascending).2.2 t first last (by simp)
      · obtain rfl := List.mem_singleton.1 here
        exact Nat.le_refl _
    | some last =>
      rw [List.find?_eq_some_iff_append] at found
      obtain ⟨ends, front, behind, rfl, noEnd⟩ := found
      have whole : (front ++ last :: behind).takeWhile (·.kind ≠ .eof) = front := by
        rw [List.takeWhile_append_of_pos (by simpa using noEnd)]
        simpa using ends
      rw [whole] at member
      exact (List.pairwise_append.1 ascending).2.2 t member last (by simp)
  refine List.pairwise_append.2 ⟨?_, List.pairwise_singleton _ _, fun t member u here => ?_⟩
  · exact ascending.sublist (List.takeWhile_sublist _)
  · obtain rfl := List.mem_singleton.1 here
    exact before t member

end Lox.Grammar

namespace Lox

/-- The errors of tokens in order. -/
theorem parse_ordered {tokens : List Token} (ascending : Ascending tokens) {fresh next : Occurrence}
    {errors : List Diagnostic} (refused : parse tokens fresh = (.error errors, next)) :
    (∀ d ∈ errors, ∃ line place e, d = .syntactic line place e) ∧
      errors.Pairwise Diagnostic.Precedes := by
  have leaves := Grammar.tidies_program tokens.length _ (Grammar.start_tidy ascending fresh)
  rw [parse] at refused
  generalize Grammar.program tokens.length (.start tokens fresh) = r at leaves refused
  cases r with
  | error halt c =>
    cases refused
    exact ⟨leaves.syntactic, leaves.errors⟩
  | ok list c =>
    dsimp only at refused
    split at refused <;> cases refused
    exact ⟨leaves.1.syntactic, leaves.1.errors⟩

end Lox
