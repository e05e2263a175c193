import Lox.Proofs.Buffer.Parse
import Lox.Proofs.Grammar.StatementComplete
import Lox.Proofs.Omission.History
import Lox.Proofs.Recovery.Parts

/-! The rules for statements and declarations behind two histories, and the repetition of declarations
under two bounds. What is read from a place on is the same in both cases. -/
namespace Lox.Grammar

section

variable {E F : List Diagnostic}

theorem steady_expression (bound : Nat) : SteadyExpr E F (expression bound) := by
  induction bound with
  | zero => exact steady_assignment .throw 0
  | succ bound ih => exact steady_assignment ih (bound + 1)

theorem Akin.recovering {rule : Rule α} {c c' : Cursor} (akin : Akin E F Unseen (rule c) (rule c')) :
    Akin E F Unseen (recovering rule c) (recovering rule c') := by
  rw [Grammar.recovering, Grammar.recovering]
  generalize rule c = r, rule c' = r' at akin ⊢
  cases akin with
  | ok _ later => exact .ok trivial later
  | @error _ _ halt later =>
    obtain ⟨⟩ := later
    cases halt with
    | reported => exact .ok trivial .intro
    | exhausted => exact .error .intro

theorem steady_recovering {rule : Rule α} (steady : Steady E F rule) : Steady E F (recovering rule) :=
  fun _ _ beside => (steady beside).recovering

theorem steady_parameters (bound index : Nat) : Steady E F (parameters bound index) := by
  induction bound generalizing index with
  | zero =>
    rw [parameters]
    refine .limited (.consume fun name => .accept? fun o => ?_)
    cases o with
    | none => exact .pure trivial
    | some _ => exact .throw
  | succ bound ih =>
    rw [parameters]
    refine .limited (.consume fun name => .accept? fun o => ?_)
    cases o with
    | none => exact .pure trivial
    | some _ => exact .bind (ih _) fun _ _ _ => .pure trivial

section

variable {declaration : Rule (Option Stmt)} (steady : Steady E F declaration)
include steady

theorem steady_declarations {more : Cursor → Bool}
    (same : ∀ c c', Beside E F c c' → more c = more c') (bound : Nat) :
    Steady E F (declarations declaration more bound) := by
  induction bound with
  | zero =>
    rw [declarations.eq_def]
    refine .atEnd fun b => .get fun c c' beside => ?_
    rw [same c c' beside]
    split
    · exact .pure trivial
    · exact .throw
  | succ bound ih =>
    rw [declarations.eq_def]
    refine .atEnd fun b => .get fun c c' beside => ?_
    rw [same c c' beside]
    split
    · exact .pure trivial
    · exact .bind steady fun _ _ _ => .bind ih fun _ _ _ => .pure trivial

theorem steady_block (bound : Nat) : Steady E F (block declaration bound) := by
  refine .bind (steady_declarations steady (fun c c' beside => ?_) bound) fun _ _ _ =>
    .consume fun _ => .pure trivial
  rw [beside.sees_eq]

theorem steady_function (bound : Nat) (kind : FunctionKind) :
    Steady E F (function declaration bound kind) := by
  refine .consume fun name => .consume fun _ => .sees fun b => ?_
  have body (list list' : List Token) : Accord E F Unseen
      (do
        let _ ← consume .rightParen .parameterClosing
        let _ ← consume .leftBrace (.bodyOpening kind)
        return (⟨name, list, ← block declaration bound⟩ : FunctionDecl))
      (do
        let _ ← consume .rightParen .parameterClosing
        let _ ← consume .leftBrace (.bodyOpening kind)
        return ⟨name, list', ← block declaration bound⟩) :=
    .consume fun _ => .consume fun _ => .bind (steady_block steady bound) fun _ _ _ => .pure trivial
  cases b with
  | true => exact .bind (V := Unseen) (.pure trivial) fun _ _ _ => body _ _
  | false => exact .bind (steady_parameters bound 0) fun _ _ _ => body _ _

theorem steady_methods (bound : Nat) : Steady E F (methods declaration bound) := by
  induction bound with
  | zero =>
    rw [methods.eq_def]
    refine .atEnd fun b => .sees fun b' => ?_
    split
    · exact .pure trivial
    · exact .throw
  | succ bound ih =>
    rw [methods.eq_def]
    refine .atEnd fun b => .sees fun b' => ?_
    split
    · exact .pure trivial
    · exact .bind (steady_function steady bound .method) fun _ _ _ =>
        .bind ih fun _ _ _ => .pure trivial

theorem steady_classDeclaration (bound : Nat) : Steady E F (classDeclaration declaration bound) :=
  .consume fun _ => .consume fun _ => .bind (steady_methods steady bound) fun _ _ _ =>
    .consume fun _ => .pure trivial

end

theorem steady_varDeclaration (bound : Nat) : Steady E F (varDeclaration bound) := by
  refine .consume fun name => .accept? fun o => ?_
  cases o with
  | none => exact .bind (V := Unseen) (.pure trivial) fun _ _ _ => .consume fun _ => .pure trivial
  | some _ =>
    exact .bind (steady_expression bound).map fun _ _ _ => .consume fun _ => .pure trivial

theorem steady_optionalExpression (closing : TokenKind) (bound : Nat) :
    Steady E F (optionalExpression closing bound) := by
  refine .sees fun b => ?_
  cases b with
  | true => exact .pure trivial
  | false => exact (steady_expression bound).map

theorem steady_expressionStatement (bound : Nat) : Steady E F (expressionStatement bound) :=
  .bind (steady_expression bound) fun _ _ _ => .consume fun _ => .pure trivial

theorem steady_forInitializer (bound : Nat) : Steady E F (forInitializer bound) := by
  refine .accept? fun o => ?_
  cases o with
  | none => exact (steady_expressionStatement bound).map
  | some t =>
    dsimp only
    split
    · exact .pure trivial
    · exact (steady_varDeclaration bound).map

section

variable {statement : Rule Stmt} (steady : Steady E F statement)
include steady

theorem steady_forStatement (bound : Nat) : Steady E F (forStatement statement bound) := by
  refine .consume fun _ => .bind (steady_forInitializer bound) fun _ _ _ => ?_
  refine .bind (steady_optionalExpression .semicolon bound) fun _ _ _ => .consume fun _ => ?_
  refine .bind (steady_optionalExpression .rightParen bound) fun _ _ _ => .consume fun _ => ?_
  exact .bind steady fun _ _ _ => .pure trivial

theorem steady_ifStatement (bound : Nat) : Steady E F (ifStatement statement bound) := by
  refine .consume fun _ => .bind (steady_expression bound) fun _ _ _ => ?_
  refine .consume fun _ => .bind steady fun _ _ _ => .accept? fun o => ?_
  cases o with
  | none => exact .pure trivial
  | some _ => exact .bind steady fun _ _ _ => .pure trivial

theorem steady_whileStatement (bound : Nat) : Steady E F (whileStatement statement bound) :=
  .consume fun _ => .bind (steady_expression bound) fun _ _ _ =>
    .consume fun _ => .bind steady fun _ _ _ => .pure trivial

end

theorem steady_printStatement (bound : Nat) : Steady E F (printStatement bound) :=
  .bind (steady_expression bound) fun _ _ _ => .consume fun _ => .pure trivial

theorem steady_returnStatement (keyword : Token) (bound : Nat) :
    Steady E F (returnStatement keyword bound) :=
  .bind (steady_optionalExpression .semicolon bound) fun _ _ _ => .consume fun _ => .pure trivial

section

variable {inner : Inner} (statement : Steady E F inner.statement)
  (declaration : Steady E F inner.declaration)
include statement declaration

theorem steady_statementRule (bound : Nat) : Steady E F (statementRule inner bound) := by
  refine .accept? fun o => ?_
  cases o with
  | none => exact steady_expressionStatement bound
  | some t =>
    dsimp only
    split
    · exact steady_forStatement statement bound
    · exact steady_ifStatement statement bound
    · exact steady_printStatement bound
    · exact steady_returnStatement t bound
    · exact steady_whileStatement statement bound
    · exact (steady_block declaration bound).map

theorem steady_declarationRule (bound : Nat) : Steady E F (declarationRule inner bound) := by
  refine .accept? fun o => ?_
  cases o with
  | none => exact steady_statementRule statement declaration bound
  | some t =>
    dsimp only
    split
    · exact steady_classDeclaration declaration bound
    · exact (steady_function declaration bound .function).map
    · exact steady_varDeclaration bound

end

theorem steady_rules (bound : Nat) :
    Steady E F (rules bound).statement ∧ Steady E F (rules bound).declaration := by
  induction bound with
  | zero =>
    constructor
    · exact steady_statementRule .throw .throw 0
    · exact steady_recovering (steady_declarationRule .throw .throw 0)
  | succ bound ih =>
    constructor
    · exact steady_statementRule ih.1 ih.2 (bound + 1)
    · exact steady_recovering (steady_declarationRule ih.1 ih.2 (bound + 1))

theorem steady_within (bound : Nat) :
    Steady E F (within bound).statement ∧ Steady E F (within bound).declaration := by
  cases bound with
  | zero => exact ⟨.throw, .throw⟩
  | succ bound => exact steady_rules bound

end

/-- What a reader of a buffer has come to tells the place in the list. -/
theorem place_unique {l : Buffer.Layout} {r : Buffer.State} {c c' : Cursor} (here : Buffer.At l c r)
    (there : Buffer.At l c' r) : c = c' := by
  obtain ⟨ts, last, errors, n⟩ := c
  obtain ⟨ts', last', errors', n'⟩ := c'
  rw [Cursor.mk.injEq]
  exact ⟨here.upcoming.trans there.upcoming.symm, here.last.trans there.last.symm,
    here.errors.symm.trans there.errors, here.fresh.symm.trans there.fresh⟩

/-- Bounds that are enough make no difference to a repetition of declarations. -/
theorem declarations_bound {more : Cursor → Bool} {closing : Option TokenKind}
    (agree : ∀ c, more c = !closing.any c.sees) {ts : List Token} {last : Token}
    (noEnd : ∀ t ∈ ts, t.kind ≠ .eof) (ends : last.kind = .eof) (fits : ts.length ≤ b)
    (fits' : ts.length ≤ b') (deep : ts.length ≤ d) (deep' : ts.length ≤ d')
    (errors : List Diagnostic) (n : Occurrence) :
    declarations (rules d).declaration more b ⟨ts, last, errors, n⟩ =
      declarations (rules d').declaration more b' ⟨ts, last, errors, n⟩ := by
  let l : Buffer.Layout := ⟨ts, last, [], noEnd, ends⟩
  let r : Buffer.State := ⟨l.tokens, 0, errors, n, []⟩
  have start : Buffer.At l ⟨ts, last, errors, n⟩ r :=
    ⟨rfl, Nat.zero_le _, rfl, rfl, rfl, rfl, fun _ member => absurd member List.not_mem_nil⟩
  -- Both are beside one reader of a buffer, with bounds of its own.
  have beside {b d : Nat} (fits : ts.length ≤ b) (deep : ts.length ≤ d) :=
    Buffer.declarations_ok agree (Buffer.follows_rules (l := l) deep (Nat.le_refl ts.length)).declaration
      fits (Nat.le_refl _) start (Nat.le_refl _)
  obtain ⟨list, c, r₁, here, ran, both, -⟩ := beside fits deep
  obtain ⟨list', c', r₂, there, ran', both', -⟩ := beside fits' deep'
  rw [ran] at ran'
  cases ran'
  rw [here, there, place_unique both both']

end Lox.Grammar

namespace Lox.Part

open Grammar (Cursor)

/-- Tokens are read to the end of the file, whatever the bound is that is enough for them. -/
theorem parsed_of_program (p : Part) (fits : (Cursor.start p.tokens p.fresh).upcoming.length ≤ b) :
    ∃ list c, Grammar.program b (.start p.tokens p.fresh) = .ok list c ∧
      p.parsed = if c.errors.isEmpty then .ok list else .error c.errors := by
  obtain ⟨l, -, starts⟩ := Buffer.exists_layout p.tokens
  have start := starts p.fresh
  have enough : l.stop ≤ p.tokens.length := l.stop_le start
  rw [start] at fits ⊢
  have agree (c : Cursor) : true = !Option.any c.sees none := rfl
  have same : Grammar.program p.tokens.length (l.cursor p.fresh) = Grammar.program b (l.cursor p.fresh) :=
    Grammar.declarations_bound agree l.plain l.ends enough fits enough fits [] p.fresh
  obtain ⟨list, c, -, ran, -⟩ := Buffer.program_ok l p.fresh fits fits
  exact ⟨list, c, ran, by rw [parsed, parse, start, same, ran]⟩

theorem errors_of_program (p : Part) (fits : (Cursor.start p.tokens p.fresh).upcoming.length ≤ b) :
    ∃ list c, Grammar.program b (.start p.tokens p.fresh) = .ok list c ∧ p.errors = c.errors := by
  obtain ⟨list, c, ran, parsed⟩ := p.parsed_of_program fits
  refine ⟨list, c, ran, ?_⟩
  rw [errors, parsed]
  cases reported : c.errors <;> simp

theorem accepted_iff (p : Part) : p.Accepted ↔ p.errors = [] := by
  refine ⟨Accepted.errors_eq_nil, fun quiet => ?_⟩
  obtain ⟨list, c, -, parsed⟩ := p.parsed_of_program (Nat.le_refl _)
  refine ⟨list, ?_⟩
  rw [errors, parsed] at quiet
  rw [parsed]
  cases reported : c.errors with
  | nil => rfl
  | cons => simp [reported] at quiet

end Lox.Part
