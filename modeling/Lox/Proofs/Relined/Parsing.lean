import Lox.Program
import Lox.Proofs.Grammar.Rule
import Lox.Proofs.Relined.Tree

/-! Reading the same tokens on other lines. Rules look at the kinds of tokens and at nothing else, so
from places that correspond they go the same way, report the same, and read the same tree. `Parallel`
has one law for every way rules are put together, and the rules are shown parallel to themselves by
following their text. -/
namespace Lox.Grammar

section

variable (R : Nat → Nat → Prop)

/-- The same tokens are left and the same was reported, on other lines. -/
structure Cursor.Relined (c c' : Cursor) : Prop where
  upcoming : List.Forall₂ (Token.Relined R) c.upcoming c'.upcoming
  last : c.last.Relined R c'.last
  errors : List.Forall₂ (Diagnostic.Relined R) c.errors c'.errors

/-- Both rules succeed, with results that `V` relates, or both give up for one reason. -/
inductive Together (V : α → α → Prop) :
    EStateM.Result Halt Cursor α → EStateM.Result Halt Cursor α → Prop where
  | ok : V a a' → c.Relined R c' → Together V (.ok a c) (.ok a' c')
  | error : c.Relined R c' → Together V (.error halt c) (.error halt c')

def Parallel (V : α → α → Prop) (x x' : Rule α) : Prop :=
  ∀ ⦃c c' : Cursor⦄, c.Relined R c' → Together R V (x c) (x' c')

end

variable {R : Nat → Nat → Prop}

namespace Cursor.Relined

variable {c c' : Cursor}

theorem isEmpty_eq (related : c.Relined R c') : c.upcoming.isEmpty = c'.upcoming.isEmpty := by
  have left := related.upcoming
  generalize c.upcoming = tokens, c'.upcoming = tokens' at left ⊢
  cases left <;> rfl

theorem sees_eq (related : c.Relined R c') (kind : TokenKind) : c.sees kind = c'.sees kind := by
  rw [Cursor.sees, Cursor.sees]
  have left := related.upcoming
  generalize c.upcoming = tokens, c'.upcoming = tokens' at left ⊢
  cases left with
  | nil => rfl
  | cons first => simp [first.kind]

theorem peek (related : c.Relined R c') : c.peek.Relined R c'.peek := by
  rw [Cursor.peek, Cursor.peek]
  have left := related.upcoming
  generalize c.upcoming = tokens, c'.upcoming = tokens' at left ⊢
  cases left with
  | nil => exact related.last
  | cons first => exact first

theorem reporting {t t' : Token} (related : c.Relined R c') (same : t.Relined R t')
    (e : SyntaxError) :
    Cursor.Relined R { c with errors := c.errors ++ [.syntactic t.line t.place e] }
      { c' with errors := c'.errors ++ [.syntactic t'.line t'.place e] } := by
  refine { related with errors := List.rel_append related.errors (.cons ?_ .nil) }
  rw [same.place_eq]
  exact .syntactic same.line

end Cursor.Relined

/-- The tokens up to the next boundary are skipped on both sides. -/
theorem boundary_relined {skipped skipped' : Token} {ts ts' : List Token}
    (same : skipped.Relined R skipped') (all : List.Forall₂ (Token.Relined R) ts ts') :
    List.Forall₂ (Token.Relined R) (boundary skipped ts) (boundary skipped' ts') := by
  induction all generalizing skipped skipped' with
  | nil => exact .nil
  | cons first rest ih =>
    rw [boundary, boundary, same.kind, first.kind]
    split
    · exact .cons first rest
    · exact ih first

namespace Parallel

variable {V : α → α → Prop} {W : β → β → Prop}

theorem pure (related : V a a') : Parallel R V (pure a) (pure a') := fun _ _ same => .ok related same

theorem throw : Parallel R V (throw halt) (throw halt) := fun _ _ same => .error same

theorem bind {x x' : Rule α} {f f' : α → Rule β} (first : Parallel R V x x')
    (second : ∀ a a', V a a' → Parallel R W (f a) (f' a')) :
    Parallel R W (x >>= f) (x' >>= f') := by
  intro c c' same
  rw [bind_apply, bind_apply]
  have joined := first same
  generalize x c = r, x' c' = r' at joined ⊢
  cases joined with
  | ok related later => exact second _ _ related later
  | error later => exact .error later

theorem map {x x' : Rule α} {g g' : α → β} (first : Parallel R V x x')
    (related : ∀ a a', V a a' → W (g a) (g' a')) : Parallel R W (g <$> x) (g' <$> x') := by
  intro c c' same
  rw [map_apply, map_apply]
  have joined := first same
  generalize x c = r, x' c' = r' at joined ⊢
  cases joined with
  | ok both later => exact .ok (related _ _ both) later
  | error later => exact .error later

theorem get {f f' : Cursor → Rule β}
    (second : ∀ c c', c.Relined R c' → Parallel R W (f c) (f' c')) :
    Parallel R W (get >>= f) (get >>= f') := fun c c' same => second c c' same same

theorem atEnd {f f' : Bool → Rule β} (second : ∀ b, Parallel R W (f b) (f' b)) :
    Parallel R W (atEnd >>= f) (atEnd >>= f') := by
  intro c c' same
  show Together R W (f c.upcoming.isEmpty c) (f' c'.upcoming.isEmpty c')
  rw [same.isEmpty_eq]
  exact second _ same

theorem sees {f f' : Bool → Rule β} (second : ∀ b, Parallel R W (f b) (f' b)) :
    Parallel R W (sees kind >>= f) (sees kind >>= f') := by
  intro c c' same
  show Together R W (f (c.sees kind) c) (f' (c'.sees kind) c')
  rw [same.sees_eq]
  exact second _ same

theorem accept? {f f' : Option Token → Rule β} (absent : Parallel R W (f none) (f' none))
    (present : ∀ t t', t.Relined R t' → Parallel R W (f (some t)) (f' (some t'))) :
    Parallel R W (accept? kinds >>= f) (accept? kinds >>= f') := by
  intro c c' same
  rw [bind_apply, bind_apply]
  obtain ⟨tokens, last, errors, next⟩ := c
  obtain ⟨tokens', last', errors', next'⟩ := c'
  obtain ⟨left, ends, reported⟩ := same
  cases left with
  | nil => exact absent ⟨.nil, ends, reported⟩
  | @cons t t' rest rest' first others =>
    simp only [Grammar.accept?, first.kind]
    by_cases member : t'.kind ∈ kinds
    · simp only [if_pos member]
      exact present t t' first ⟨others, ends, reported⟩
    · simp only [if_neg member]
      exact absent ⟨.cons first others, ends, reported⟩

theorem report {f f' : Unit → Rule β} (same : t.Relined R t')
    (second : Parallel R W (f ()) (f' ())) :
    Parallel R W (report t e >>= f) (report t' e >>= f') :=
  fun _ _ related => second (related.reporting same e)

theorem fail (same : t.Relined R t') : Parallel R V (fail t e) (fail t' e) :=
  fun _ _ related => .error (related.reporting same e)

theorem fresh {f f' : Occurrence → Rule β} (second : ∀ i i', Parallel R W (f i) (f' i')) :
    Parallel R W (freshOccurrence >>= f) (freshOccurrence >>= f') :=
  fun c c' same => second c.fresh c'.fresh { same with }

theorem consume {f f' : Token → Rule β}
    (second : ∀ t t', t.Relined R t' → Parallel R W (f t) (f' t')) :
    Parallel R W (consume kind expected >>= f) (consume kind expected >>= f') := by
  refine .bind (.accept? ?_ fun t t' same => .pure same) second
  exact .get fun c c' same => .fail same.peek

/-- What is over a limit is reported on both sides. -/
theorem limited {beyond : Prop} [Decidable beyond] {f f' : Unit → Rule β}
    (second : Parallel R W (f ()) (f' ())) :
    Parallel R W
      (if beyond then do
          let c ← MonadState.get
          let r ← Grammar.report (Cursor.peek c) e
          f r
        else f ())
      (if beyond then do
          let c ← MonadState.get
          let r ← Grammar.report (Cursor.peek c) e
          f' r
        else f' ()) := by
  split
  · exact .get fun c c' same => .report same.peek second
  · exact second

end Parallel

/-- The rule reads the same expression from tokens on other lines. -/
abbrev ParallelExpr (R : Nat → Nat → Prop) (rule : Rule Expr) : Prop :=
  Parallel R (Expr.Relined R) rule rule

/-- The nodes of a level correspond if their parts do. -/
def Level.Relined (R : Nat → Nat → Prop) (level : Level) : Prop :=
  ∀ {left left' operator operator' right right'}, Expr.Relined R left left' →
    operator.Relined R operator' → Expr.Relined R right right' →
      Expr.Relined R (level.node left operator right) (level.node left' operator' right')

theorem levels_relined : ∀ level ∈ levels, level.Relined R := by
  intro level member
  simp only [levels, List.mem_cons, List.not_mem_nil, or_false] at member
  rcases member with rfl | rfl | rfl | rfl | rfl | rfl
  · exact .logical
  · exact .logical
  all_goals exact .binary

theorem literalValue_eq {t t' : Token} (same : t.Relined R t') : literalValue t = literalValue t' := by
  rw [literalValue, literalValue, same.literal]

section

variable {rule : Rule Expr} (related : ParallelExpr R rule)
include related

theorem parallel_chain {level : Level} (nodes : level.Relined R) (bound : Nat) {left left' : Expr}
    (first : Expr.Relined R left left') :
    Parallel R (Expr.Relined R) (level.chain rule bound left) (level.chain rule bound left') := by
  induction bound generalizing left left' with
  | zero =>
    rw [Level.chain, Level.chain]
    exact .accept? (.pure first) fun _ _ _ => .throw
  | succ bound ih =>
    rw [Level.chain, Level.chain]
    refine .accept? (.pure first) fun operator operator' same => ?_
    exact .bind related fun right right' second => ih (nodes first same second)

theorem parallel_level {level : Level} (nodes : level.Relined R) (bound : Nat) :
    ParallelExpr R (level.rule bound rule) := by
  have refused : Parallel R (fun _ _ => True) (level.refuseLeading rule) (level.refuseLeading rule) := by
    refine .accept? (.pure trivial) fun operator operator' same => ?_
    refine .bind related fun _ _ _ => ?_
    rw [same.lexeme]
    exact .fail same
  refine .bind refused fun _ _ _ => ?_
  exact .bind related fun left left' first => parallel_chain related nodes bound first

theorem parallel_primary : ParallelExpr R (primary rule) := by
  refine .accept? (.get fun c c' same => .fail same.peek) fun t t' same => ?_
  dsimp only
  rw [same.kind]
  split
  · exact .pure .constant
  · exact .pure .constant
  · exact .pure .constant
  · exact .fresh fun i i' => .pure (.this same)
  · exact .fresh fun i i' => .pure (.read same)
  · refine .bind related fun inner inner' part => ?_
    exact .consume fun _ _ _ => .pure (.group part)
  · rw [literalValue_eq same]
    exact .pure .constant

theorem parallel_arguments (bound index : Nat) : Parallel R (Expr.AllRelined R)
    (arguments rule bound index) (arguments rule bound index) := by
  induction bound generalizing index with
  | zero =>
    rw [arguments]
    exact .limited (.bind related fun e e' first =>
      .accept? (.pure (.cons first .nil)) fun _ _ _ => .throw)
  | succ bound ih =>
    rw [arguments]
    refine .limited (.bind related fun e e' first =>
      .accept? (.pure (.cons first .nil)) fun _ _ _ => ?_)
    exact .bind (ih _) fun list list' rest => .pure (.cons first rest)

theorem parallel_argumentList (bound : Nat) :
    Parallel R (fun r r' => Expr.AllRelined R r.1 r'.1 ∧ r.2.Relined R r'.2)
      (argumentList rule bound) (argumentList rule bound) := by
  refine .sees fun b => ?_
  cases b with
  | true => exact .bind (.pure .nil) fun list list' all => .consume fun t t' same => .pure ⟨all, same⟩
  | false =>
    exact .bind (parallel_arguments related bound 0) fun list list' all =>
      .consume fun t t' same => .pure ⟨all, same⟩

theorem parallel_suffixes (bound : Nat) {callee callee' : Expr}
    (first : Expr.Relined R callee callee') :
    Parallel R (Expr.Relined R) (suffixes rule bound callee) (suffixes rule bound callee') := by
  induction bound generalizing callee callee' with
  | zero =>
    rw [suffixes, suffixes]
    exact .accept? (.pure first) fun _ _ _ => .throw
  | succ bound ih =>
    rw [suffixes, suffixes]
    refine .accept? (.pure first) fun t t' same => ?_
    dsimp only
    rw [same.kind]
    split
    · exact .bind (parallel_argumentList related bound) fun _ _ list => ih (.call first list.2 list.1)
    · exact .consume fun name name' same => ih (.get first same)

theorem parallel_call (bound : Nat) : ParallelExpr R (call rule bound) :=
  .bind (parallel_primary related) fun _ _ callee => parallel_suffixes related bound callee

theorem parallel_unary (bound : Nat) : ParallelExpr R (unary rule bound) := by
  induction bound with
  | zero =>
    rw [unary]
    exact .accept? (parallel_call related 0) fun _ _ _ => .throw
  | succ bound ih =>
    rw [unary]
    refine .accept? (parallel_call related _) fun operator operator' same => ?_
    exact .bind ih fun _ _ operand => .pure (.unary same operand)

theorem parallel_operation (bound : Nat) : ParallelExpr R (operation rule bound) := by
  have from_levels (list : List Level) (nodes : ∀ level ∈ list, level.Relined R) :
      ParallelExpr R (list.foldr (Level.rule bound) (unary rule bound)) := by
    induction list with
    | nil => exact parallel_unary related bound
    | cons level rest ih =>
      have tighter := ih fun level member => nodes level (.tail _ member)
      exact parallel_level tighter (nodes level (.head _)) bound
  exact from_levels levels levels_relined

theorem parallel_assignment (bound : Nat) : ParallelExpr R (assignment rule bound) := by
  refine .bind (parallel_operation related bound) fun target target' first => ?_
  refine .accept? (.pure first) fun equals equals' same => ?_
  refine .bind related fun value value' second => ?_
  cases first with
  | read name => exact .fresh fun i i' => .pure (.assign name second)
  | get object name => exact .pure (.set object name second)
  | constant => exact .report same (.pure .constant)
  | group part => exact .report same (.pure (.group part))
  | unary operator part => exact .report same (.pure (.unary operator part))
  | binary left operator right => exact .report same (.pure (.binary left operator right))
  | logical left operator right => exact .report same (.pure (.logical left operator right))
  | assign name part => exact .report same (.pure (.assign name part))
  | call callee closing list => exact .report same (.pure (.call callee closing list))
  | set object name part => exact .report same (.pure (.set object name part))
  | this keyword => exact .report same (.pure (.this keyword))

end

theorem parallel_expression (bound : Nat) : ParallelExpr R (expression bound) := by
  induction bound with
  | zero => exact parallel_assignment .throw 0
  | succ bound ih => exact parallel_assignment ih (bound + 1)

/-- The rule reads the same statement. -/
abbrev ParallelStmt (R : Nat → Nat → Prop) (rule : Rule Stmt) : Prop :=
  Parallel R (Stmt.Relined R) rule rule

/-- The rule reads the same declaration or drops it on both sides. -/
abbrev ParallelOption (R : Nat → Nat → Prop) (rule : Rule (Option Stmt)) : Prop :=
  Parallel R (Option.Rel (Stmt.Relined R)) rule rule

theorem parallel_resume : Parallel R (fun _ _ => True) resume resume := by
  intro c c' same
  obtain ⟨tokens, last, errors, next⟩ := c
  obtain ⟨tokens', last', errors', next'⟩ := c'
  obtain ⟨left, ends, reported⟩ := same
  cases left with
  | nil => exact .ok trivial ⟨.nil, ends, reported⟩
  | cons first others => exact .ok trivial ⟨boundary_relined first others, ends, reported⟩

theorem parallel_recovering {rule : Rule Stmt} (related : ParallelStmt R rule) :
    ParallelOption R (recovering rule) := by
  intro c c' same
  rw [recovering, recovering]
  have joined := related same
  generalize rule c = r, rule c' = r' at joined ⊢
  cases joined with
  | ok both later => exact .ok (.some both) later
  | @error halt d d' later =>
    cases halt with
    | reported =>
      have dropped : Parallel R (Option.Rel (Stmt.Relined R)) (resume >>= fun _ => pure none)
          (resume >>= fun _ => pure none) := parallel_resume.bind fun _ _ _ => .pure .none
      exact dropped later
    | exhausted => exact .error later

theorem toList_append_relined {first first' : Option Stmt} {rest rest' : List Stmt}
    (one : Option.Rel (Stmt.Relined R) first first') (more : Stmt.AllRelined R rest rest') :
    Stmt.AllRelined R (first.toList ++ rest) (first'.toList ++ rest') := by
  cases one with
  | none => exact more
  | some one => exact .cons one more

theorem parallel_parameters (bound index : Nat) :
    Parallel R (List.Forall₂ (Token.Relined R)) (parameters bound index) (parameters bound index) := by
  induction bound generalizing index with
  | zero =>
    rw [parameters]
    exact .limited (.consume fun name name' same =>
      .accept? (.pure (.cons same .nil)) fun _ _ _ => .throw)
  | succ bound ih =>
    rw [parameters]
    refine .limited (.consume fun name name' same =>
      .accept? (.pure (.cons same .nil)) fun _ _ _ => ?_)
    exact .bind (ih _) fun _ _ rest => .pure (.cons same rest)

section

variable {declaration : Rule (Option Stmt)} (related : ParallelOption R declaration)
include related

theorem parallel_declarations {more : Cursor → Bool}
    (same : ∀ c c', c.Relined R c' → more c = more c') (bound : Nat) :
    Parallel R (Stmt.AllRelined R) (declarations declaration more bound)
      (declarations declaration more bound) := by
  induction bound with
  | zero =>
    rw [declarations.eq_def]
    refine .atEnd fun b => .get fun c c' both => ?_
    rw [same c c' both]
    split
    · exact .pure .nil
    · exact .throw
  | succ bound ih =>
    rw [declarations.eq_def]
    refine .atEnd fun b => .get fun c c' both => ?_
    rw [same c c' both]
    split
    · exact .pure .nil
    · exact .bind related fun _ _ first =>
        .bind ih fun _ _ rest => .pure (toList_append_relined first rest)

theorem parallel_block (bound : Nat) :
    Parallel R (Stmt.AllRelined R) (block declaration bound) (block declaration bound) := by
  refine .bind (parallel_declarations related (fun c c' same => ?_) bound) fun _ _ body =>
    .consume fun _ _ _ => .pure body
  rw [same.sees_eq]

theorem parallel_function (bound : Nat) (kind : FunctionKind) :
    Parallel R (FunctionDecl.Relined R) (function declaration bound kind)
      (function declaration bound kind) := by
  refine .consume fun name name' same => .consume fun _ _ _ => .sees fun b => ?_
  have body {list list' : List Token} (parameters : List.Forall₂ (Token.Relined R) list list') :
      Parallel R (FunctionDecl.Relined R)
        (do
          let _ ← consume .rightParen .parameterClosing
          let _ ← consume .leftBrace (.bodyOpening kind)
          return ⟨name, list, ← block declaration bound⟩)
        (do
          let _ ← consume .rightParen .parameterClosing
          let _ ← consume .leftBrace (.bodyOpening kind)
          return ⟨name', list', ← block declaration bound⟩) :=
    .consume fun _ _ _ => .consume fun _ _ _ =>
      .bind (parallel_block related bound) fun _ _ body => .pure (.intro same parameters body)
  cases b with
  | true => exact .bind (.pure .nil) fun _ _ => body
  | false => exact .bind (parallel_parameters bound 0) fun _ _ => body

theorem parallel_methods (bound : Nat) : Parallel R (FunctionDecl.AllRelined R)
    (methods declaration bound) (methods declaration bound) := by
  induction bound with
  | zero =>
    rw [methods.eq_def]
    refine .atEnd fun b => .sees fun b' => ?_
    split
    · exact .pure .nil
    · exact .throw
  | succ bound ih =>
    rw [methods.eq_def]
    refine .atEnd fun b => .sees fun b' => ?_
    split
    · exact .pure .nil
    · exact .bind (parallel_function related bound .method) fun _ _ first =>
        .bind ih fun _ _ rest => .pure (.cons first rest)

theorem parallel_classDeclaration (bound : Nat) : ParallelStmt R (classDeclaration declaration bound) :=
  .consume fun _ _ name => .consume fun _ _ _ =>
    .bind (parallel_methods related bound) fun _ _ list =>
      .consume fun _ _ _ => .pure (.classDecl name list)

end

theorem parallel_some_expression (bound : Nat) :
    Parallel R (Option.Rel (Expr.Relined R)) (some <$> expression bound) (some <$> expression bound) :=
  .map (parallel_expression bound) fun _ _ => .some

theorem parallel_varDeclaration (bound : Nat) : ParallelStmt R (varDeclaration bound) := by
  refine .consume fun name name' same => .accept? ?_ fun _ _ _ => ?_
  · exact .bind (.pure .none) fun _ _ value => .consume fun _ _ _ => .pure (.var same value)
  · exact .bind (parallel_some_expression bound) fun _ _ value =>
      .consume fun _ _ _ => .pure (.var same value)

theorem parallel_optionalExpression (closing : TokenKind) (bound : Nat) :
    Parallel R (Option.Rel (Expr.Relined R)) (optionalExpression closing bound)
      (optionalExpression closing bound) := by
  refine .sees fun b => ?_
  split
  · exact .pure .none
  · exact parallel_some_expression bound

theorem parallel_expressionStatement (bound : Nat) : ParallelStmt R (expressionStatement bound) :=
  .bind (parallel_expression bound) fun _ _ value => .consume fun _ _ _ => .pure (.expression value)

theorem lowered_relined {initializer initializer' : Option Stmt}
    {condition condition' increment increment' : Option Expr} {body body' : Stmt}
    (begins : Option.Rel (Stmt.Relined R) initializer initializer')
    (checks : Option.Rel (Expr.Relined R) condition condition')
    (steps : Option.Rel (Expr.Relined R) increment increment') (repeats : body.Relined R body') :
    (lowered initializer condition increment body).Relined R
      (lowered initializer' condition' increment' body') := by
  have test : Expr.Relined R (condition.getD (.constant (.boolean true)))
      (condition'.getD (.constant (.boolean true))) := by
    cases checks with
    | none => exact .constant
    | some check => exact check
  cases begins with
  | none =>
    cases steps with
    | none => exact .loop test repeats
    | some step => exact .loop test (.block (.cons repeats (.cons (.expression step) .nil)))
  | some start =>
    cases steps with
    | none => exact .block (.cons start (.cons (.loop test repeats) .nil))
    | some step =>
      have round := Stmt.Relined.block (.cons repeats (.cons (.expression step) .nil))
      exact .block (.cons start (.cons (.loop test round) .nil))

theorem parallel_forInitializer (bound : Nat) :
    ParallelOption R (forInitializer bound) := by
  refine .accept? ?_ fun t t' same => ?_
  · exact .map (parallel_expressionStatement bound) fun _ _ => .some
  dsimp only
  rw [same.kind]
  split
  · exact .pure .none
  · exact .map (parallel_varDeclaration bound) fun _ _ => .some

section

variable {statement : Rule Stmt} (related : ParallelStmt R statement)
include related

theorem parallel_forStatement (bound : Nat) : ParallelStmt R (forStatement statement bound) := by
  refine .consume fun _ _ _ => .bind (parallel_forInitializer bound) fun _ _ begins => ?_
  refine .bind (parallel_optionalExpression .semicolon bound) fun _ _ checks => .consume fun _ _ _ => ?_
  refine .bind (parallel_optionalExpression .rightParen bound) fun _ _ steps => .consume fun _ _ _ => ?_
  exact .bind related fun _ _ repeats => .pure (lowered_relined begins checks steps repeats)

theorem parallel_ifStatement (bound : Nat) : ParallelStmt R (ifStatement statement bound) := by
  refine .consume fun _ _ _ => .bind (parallel_expression bound) fun _ _ condition => ?_
  refine .consume fun _ _ _ => .bind related fun _ _ consequent => ?_
  refine .accept? (.pure (.branch condition consequent)) fun _ _ _ => ?_
  exact .bind related fun _ _ alternative => .pure (.branchElse condition consequent alternative)

theorem parallel_whileStatement (bound : Nat) : ParallelStmt R (whileStatement statement bound) :=
  .consume fun _ _ _ => .bind (parallel_expression bound) fun _ _ condition =>
    .consume fun _ _ _ => .bind related fun _ _ body => .pure (.loop condition body)

end

theorem parallel_printStatement (bound : Nat) : ParallelStmt R (printStatement bound) :=
  .bind (parallel_expression bound) fun _ _ value => .consume fun _ _ _ => .pure (.print value)

theorem parallel_returnStatement {keyword keyword' : Token} (same : keyword.Relined R keyword')
    (bound : Nat) : Parallel R (Stmt.Relined R) (returnStatement keyword bound)
      (returnStatement keyword' bound) :=
  .bind (parallel_optionalExpression .semicolon bound) fun _ _ value =>
    .consume fun _ _ _ => .pure (.ret same value)

section

variable {inner : Inner} (statement : ParallelStmt R inner.statement)
  (declaration : ParallelOption R inner.declaration)
include statement declaration

theorem parallel_statementRule (bound : Nat) : ParallelStmt R (statementRule inner bound) := by
  refine .accept? (parallel_expressionStatement bound) fun t t' same => ?_
  dsimp only
  rw [same.kind]
  split
  · exact parallel_forStatement statement bound
  · exact parallel_ifStatement statement bound
  · exact parallel_printStatement bound
  · exact parallel_returnStatement same bound
  · exact parallel_whileStatement statement bound
  · exact .map (parallel_block declaration bound) fun _ _ => .block

theorem parallel_declarationRule (bound : Nat) : ParallelStmt R (declarationRule inner bound) := by
  refine .accept? (parallel_statementRule statement declaration bound) fun t t' same => ?_
  dsimp only
  rw [same.kind]
  split
  · exact parallel_classDeclaration declaration bound
  · exact .map (parallel_function declaration bound .function) fun _ _ => .function
  · exact parallel_varDeclaration bound

end

theorem parallel_rules (bound : Nat) : ParallelStmt R (rules bound).statement ∧
    ParallelOption R (rules bound).declaration := by
  induction bound with
  | zero =>
    constructor
    · exact parallel_statementRule .throw .throw 0
    · exact parallel_recovering (parallel_declarationRule .throw .throw 0)
  | succ bound ih =>
    constructor
    · exact parallel_statementRule ih.1 ih.2 (bound + 1)
    · exact parallel_recovering (parallel_declarationRule ih.1 ih.2 (bound + 1))

theorem parallel_program (bound : Nat) :
    Parallel R (Stmt.AllRelined R) (program bound) (program bound) :=
  parallel_declarations (parallel_rules bound).2 (fun _ _ _ => rfl) bound

theorem start_relined {tokens tokens' : List Token} (all : List.Forall₂ (Token.Relined R) tokens tokens')
    (inhabited : tokens ≠ []) (fresh fresh' : Occurrence) :
    (Cursor.start tokens fresh).Relined R (.start tokens' fresh') := by
  have upcoming : List.Forall₂ (Token.Relined R) (tokens.takeWhile (·.kind ≠ .eof))
      (tokens'.takeWhile (·.kind ≠ .eof)) := by
    clear inhabited
    induction all with
    | nil => exact .nil
    | cons first _ ih =>
      rw [List.takeWhile_cons, List.takeWhile_cons, first.kind]
      split
      · exact .cons first ih
      · exact .nil
  have found : Option.Rel (Token.Relined R) (tokens.find? (·.kind = .eof))
      (tokens'.find? (·.kind = .eof)) := by
    clear inhabited upcoming
    induction all with
    | nil => exact .none
    | cons first _ ih =>
      rw [List.find?_cons, List.find?_cons, first.kind]
      split
      · exact .some first
      · exact ih
  have ends : Option.Rel (Token.Relined R) tokens.getLast? tokens'.getLast? := by
    have backward := List.forall₂_reverse_iff.2 all
    rw [← List.head?_reverse, ← List.head?_reverse]
    generalize tokens.reverse = list, tokens'.reverse = list' at backward ⊢
    cases backward with
    | nil => exact .none
    | cons last _ => exact .some last
  -- A cursor needs an end of the file; one is made up on the last line if the tokens have none.
  refine ⟨upcoming, ?_, .nil⟩
  rw [Cursor.start, Cursor.start]
  generalize tokens.find? (·.kind = .eof) = t, tokens'.find? (·.kind = .eof) = t' at found ⊢
  cases found with
  | some same => exact same
  | none =>
    refine ⟨rfl, rfl, rfl, ?_⟩
    have some := List.getLast?_eq_some_getLast inhabited
    rw [some] at ends ⊢
    generalize tokens'.getLast? = t' at ends ⊢
    cases ends with
    | some same => exact same.line

end Lox.Grammar

namespace Lox

/-- The same program, or as many errors that say the same, on other lines. -/
inductive ProgramRelined (R : Nat → Nat → Prop) :
    Except (List Diagnostic) (List Stmt) → Except (List Diagnostic) (List Stmt) → Prop where
  | ok : Stmt.AllRelined R program program' → ProgramRelined R (.ok program) (.ok program')
  | error : List.Forall₂ (Diagnostic.Relined R) errors errors' →
      ProgramRelined R (.error errors) (.error errors')

variable {R : Nat → Nat → Prop}

/-- Reading tokens on other lines, whatever numbers are free. -/
theorem parse_relined {tokens tokens' : List Token}
    (all : List.Forall₂ (Token.Relined R) tokens tokens') (inhabited : tokens ≠ [])
    (fresh fresh' : Occurrence) :
    ProgramRelined R (parse tokens fresh).1 (parse tokens' fresh').1 := by
  have joined := Grammar.parallel_program tokens.length
    (Grammar.start_relined all inhabited fresh fresh')
  rw [parse, parse, ← all.length_eq]
  generalize Grammar.program tokens.length (.start tokens fresh) = r,
    Grammar.program tokens.length (.start tokens' fresh') = r' at joined ⊢
  cases joined with
  | error later => exact .error later.errors
  | @ok list list' c c' same later =>
    have reported := later.errors
    show ProgramRelined R (if c.errors.isEmpty then _ else _) (if c'.errors.isEmpty then _ else _)
    generalize c.errors = errors, c'.errors = errors' at reported ⊢
    cases reported with
    | nil => exact .ok same
    | cons first rest => exact .error (.cons first rest)

end Lox
