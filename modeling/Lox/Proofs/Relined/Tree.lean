import Lox.Resolution
import Mathlib.Data.List.Forall2

/-! The same program written on other lines, its occurrences numbered anew. `R` tells which line
stands for which. Resolution finds the same in both: it does not look at lines, and no number of an
occurrence decides anything. -/
namespace Lox

section

variable (R : Nat → Nat → Prop)

structure Token.Relined (t t' : Token) : Prop where
  kind : t.kind = t'.kind
  lexeme : t.lexeme = t'.lexeme
  literal : t.literal = t'.literal
  line : R t.line t'.line

/-- The same report for another line. -/
inductive Diagnostic.Relined : Diagnostic → Diagnostic → Prop where
  | lexical : R line line' → Relined (.lexical line e) (.lexical line' e)
  | syntactic : R line line' → Relined (.syntactic line place e) (.syntactic line' place e)
  | static : R line line' → Relined (.static line place e) (.static line' place e)
  | runtime : R line line' → Relined (.runtime line e) (.runtime line' e)
  | sinkClosed : Relined .sinkClosed .sinkClosed

mutual

inductive Expr.Relined : Expr → Expr → Prop where
  | constant : Relined (.constant value) (.constant value)
  | group : Relined part part' → Relined (.group part) (.group part')
  | unary : operator.Relined R operator' → Relined part part' →
      Relined (.unary operator part) (.unary operator' part')
  | binary : Relined left left' → operator.Relined R operator' → Relined right right' →
      Relined (.binary left operator right) (.binary left' operator' right')
  | logical : Relined left left' → operator.Relined R operator' → Relined right right' →
      Relined (.logical left operator right) (.logical left' operator' right')
  | read : name.Relined R name' → Relined (.read i name) (.read i' name')
  | assign : name.Relined R name' → Relined value value' →
      Relined (.assign i name value) (.assign i' name' value')
  | call : Relined callee callee' → closing.Relined R closing' →
      AllRelined arguments arguments' →
      Relined (.call callee closing arguments) (.call callee' closing' arguments')
  | get : Relined object object' → name.Relined R name' →
      Relined (.get object name) (.get object' name')
  | set : Relined object object' → name.Relined R name' → Relined value value' →
      Relined (.set object name value) (.set object' name' value')
  | this : keyword.Relined R keyword' → Relined (.this i keyword) (.this i' keyword')

inductive Expr.AllRelined : List Expr → List Expr → Prop where
  | nil : AllRelined [] []
  | cons : Relined e e' → AllRelined rest rest' → AllRelined (e :: rest) (e' :: rest')

end

mutual

inductive Stmt.Relined : Stmt → Stmt → Prop where
  | expression : Expr.Relined R value value' → Stmt.Relined (.expression value) (.expression value')
  | print : Expr.Relined R value value' → Stmt.Relined (.print value) (.print value')
  | var : name.Relined R name' → Option.Rel (Expr.Relined R) value value' →
      Stmt.Relined (.var name value) (.var name' value')
  | block : Stmt.AllRelined body body' → Stmt.Relined (.block body) (.block body')
  | branch : Expr.Relined R condition condition' → Stmt.Relined consequent consequent' →
      Stmt.Relined (.branch condition consequent none) (.branch condition' consequent' none)
  | branchElse : Expr.Relined R condition condition' → Stmt.Relined consequent consequent' →
      Stmt.Relined alternative alternative' →
      Stmt.Relined (.branch condition consequent (some alternative))
        (.branch condition' consequent' (some alternative'))
  | loop : Expr.Relined R condition condition' → Stmt.Relined body body' →
      Stmt.Relined (.loop condition body) (.loop condition' body')
  | function : FunctionDecl.Relined declaration declaration' →
      Stmt.Relined (.function declaration) (.function declaration')
  | ret : keyword.Relined R keyword' → Option.Rel (Expr.Relined R) value value' →
      Stmt.Relined (.ret keyword value) (.ret keyword' value')
  | classDecl : name.Relined R name' → FunctionDecl.AllRelined methods methods' →
      Stmt.Relined (.classDecl name methods) (.classDecl name' methods')

inductive Stmt.AllRelined : List Stmt → List Stmt → Prop where
  | nil : Stmt.AllRelined [] []
  | cons : Stmt.Relined s s' → Stmt.AllRelined rest rest' →
      Stmt.AllRelined (s :: rest) (s' :: rest')

inductive FunctionDecl.Relined : FunctionDecl → FunctionDecl → Prop where
  | intro : name.Relined R name' → List.Forall₂ (Token.Relined R) parameters parameters' →
      Stmt.AllRelined body body' →
      FunctionDecl.Relined ⟨name, parameters, body⟩ ⟨name', parameters', body'⟩

inductive FunctionDecl.AllRelined : List FunctionDecl → List FunctionDecl → Prop where
  | nil : FunctionDecl.AllRelined [] []
  | cons : FunctionDecl.Relined f f' → FunctionDecl.AllRelined rest rest' →
      FunctionDecl.AllRelined (f :: rest) (f' :: rest')

end

end

/-- The same finding, but for the number of the occurrence. -/
inductive Finding.Relined (R : Nat → Nat → Prop) : Finding → Finding → Prop where
  | reference : Relined R (.reference i name depth) (.reference i' name depth)
  | error : d.Relined R d' → Relined R (.error d) (.error d')

variable {R : Nat → Nat → Prop}

/-- If every line stands for itself alone, a report is the same. -/
theorem Diagnostic.Relined.eq {d d' : Diagnostic} (related : d.Relined Eq d') : d = d' := by
  cases related with
  | lexical same | syntactic same | static same | runtime same => rw [same]
  | sinkClosed => rfl

theorem Finding.Relined.errors {a b : List Finding} (all : List.Forall₂ (Finding.Relined R) a b) :
    List.Forall₂ (Diagnostic.Relined R) (a.filterMap Finding.error?) (b.filterMap Finding.error?) := by
  induction all with
  | nil => exact .nil
  | cons first _ ih =>
    cases first with
    | reference => exact ih
    | error related => exact .cons related ih

namespace Token.Relined

variable {t t' : Token}

theorem place_eq (related : t.Relined R t') : t.place = t'.place := by
  rw [Token.place, Token.place, related.kind, related.lexeme]

variable (here : Surroundings)

theorem holds_eq (related : t.Relined R t') : here.holds t = here.holds t' := by
  rw [Surroundings.holds, Surroundings.holds, related.lexeme]

theorem hold_eq (related : t.Relined R t') (readiness : Readiness) :
    here.hold t readiness = here.hold t' readiness := by
  rw [Surroundings.hold, Surroundings.hold, related.lexeme]

theorem define_eq (related : t.Relined R t') : here.define t = here.define t' :=
  related.hold_eq here .ready

theorem declare_eq (related : t.Relined R t') : here.declare t = here.declare t' := by
  rw [Surroundings.declare, Surroundings.declare, related.holds_eq, related.hold_eq]

theorem refused (related : t.Relined R t') (e : StaticError) :
    (Finding.refused t e).Relined R (.refused t' e) := by
  rw [Finding.refused, Finding.refused, related.place_eq]
  exact .error (.static related.line)

theorem redeclaring (related : t.Relined R t') :
    List.Forall₂ (Finding.Relined R) (here.redeclaring t) (here.redeclaring t') := by
  rw [Surroundings.redeclaring, Surroundings.redeclaring, related.holds_eq]
  by_cases holds : here.holds t'
  · simp only [holds, if_true]
    exact .cons (related.refused _) .nil
  · simp only [holds]
    exact .nil

theorem returning (related : t.Relined R t') :
    List.Forall₂ (Finding.Relined R) (here.returning t) (here.returning t') := by
  rw [Surroundings.returning, Surroundings.returning]
  by_cases inside : here.inFunction
  · simp only [inside, if_true]
    exact .nil
  · simp only [inside]
    exact .cons (related.refused _) .nil

theorem referring (related : t.Relined R t') (i i' : Occurrence) :
    (here.referring i t).Relined R (here.referring i' t') := by
  rw [Surroundings.referring, Surroundings.referring, Surroundings.depth?, Surroundings.depth?,
    related.lexeme]
  exact .reference

theorem pending (related : t.Relined R t') :
    List.Forall₂ (Finding.Relined R)
      (if here.isPending t then [.refused t .ownInitializer] else [])
      (if here.isPending t' then [.refused t' .ownInitializer] else []) := by
  rw [Surroundings.isPending, Surroundings.isPending, related.lexeme]
  split
  · exact .cons (related.refused _) .nil
  · exact .nil

end Token.Relined

section

variable {tokens tokens' : List Token}

theorem Surroundings.foldl_define_eq (all : List.Forall₂ (Token.Relined R) tokens tokens')
    (here : Surroundings) : tokens.foldl define here = tokens'.foldl define here := by
  induction all generalizing here with
  | nil => rfl
  | cons first _ ih => rw [List.foldl_cons, List.foldl_cons, first.define_eq, ih]

theorem Surroundings.redeclaringEach_relined (all : List.Forall₂ (Token.Relined R) tokens tokens')
    (here : Surroundings) :
    List.Forall₂ (Finding.Relined R) (here.redeclaringEach tokens) (here.redeclaringEach tokens') := by
  induction all generalizing here with
  | nil => exact .nil
  | cons first _ ih =>
    rw [redeclaringEach, redeclaringEach, first.define_eq]
    exact List.rel_append (first.redeclaring here) (ih _)

end

theorem FunctionDecl.Relined.name {f f' : FunctionDecl} (related : f.Relined R f') :
    f.name.Relined R f'.name := by
  cases related
  assumption

mutual

theorem Expr.Relined.findings (here : Surroundings) : Expr.Relined R e e' →
    List.Forall₂ (Finding.Relined R) (e.findings here) (e'.findings here)
  | .constant => by
    rw [Expr.findings]
    exact .nil
  | .group part | .unary _ part | .get part _ => by
    rw [Expr.findings, Expr.findings]
    exact part.findings here
  | .binary left _ right | .logical left _ right => by
    rw [Expr.findings, Expr.findings]
    exact List.rel_append (left.findings here) (right.findings here)
  | .read name => by
    rw [Expr.findings, Expr.findings]
    exact List.rel_append (name.pending here) (.cons (name.referring here _ _) .nil)
  | .assign name value => by
    rw [Expr.findings, Expr.findings]
    exact List.rel_append (value.findings here) (.cons (name.referring here _ _) .nil)
  | .call callee _ arguments => by
    rw [Expr.findings, Expr.findings]
    exact List.rel_append (callee.findings here) (arguments.findings here)
  | .set object _ value => by
    rw [Expr.findings, Expr.findings]
    exact List.rel_append (value.findings here) (object.findings here)
  | .this keyword => by
    rw [Expr.findings, Expr.findings]
    by_cases inside : here.inClass
    · simp only [inside, if_true]
      exact .cons (keyword.referring here _ _) .nil
    · simp only [inside]
      exact .cons (keyword.refused _) .nil

theorem Expr.AllRelined.findings (here : Surroundings) : Expr.AllRelined R list list' →
    List.Forall₂ (Finding.Relined R) (Expr.allFindings here list) (Expr.allFindings here list')
  | .nil => by
    rw [Expr.allFindings]
    exact .nil
  | .cons first rest => by
    rw [Expr.allFindings, Expr.allFindings]
    exact List.rel_append (first.findings here) (rest.findings here)

end

theorem Stmt.Relined.after_eq (here : Surroundings) : Stmt.Relined R s s' →
    here.after s = here.after s'
  | .expression _ | .print _ | .block _ | .ret _ _ => by
    rw [Surroundings.after, Surroundings.after]
  | .var name _ | .classDecl name _ => by
    rw [Surroundings.after, Surroundings.after]
    exact name.define_eq here
  | .function related => by
    rw [Surroundings.after, Surroundings.after]
    exact related.name.define_eq here
  | .branch _ consequent | .loop _ consequent => by
    rw [Surroundings.after, Surroundings.after]
    exact consequent.after_eq here
  | .branchElse _ consequent alternative => by
    rw [Surroundings.after, Surroundings.after, consequent.after_eq here]
    exact alternative.after_eq _

mutual

theorem Stmt.Relined.findings (here : Surroundings) : Stmt.Relined R s s' →
    List.Forall₂ (Finding.Relined R) (s.findings here) (s'.findings here)
  | .expression value | .print value => by
    rw [Stmt.findings, Stmt.findings]
    exact value.findings here
  | .var name value => by
    cases value with
    | none =>
      rw [Stmt.findings, Stmt.findings]
      exact name.redeclaring here
    | some value =>
      rw [Stmt.findings, Stmt.findings, name.declare_eq]
      exact List.rel_append (name.redeclaring here) (value.findings _)
  | .block body => by
    rw [Stmt.findings, Stmt.findings]
    exact body.findings _
  | .branch condition consequent => by
    rw [Stmt.findings, Stmt.findings]
    exact List.rel_append (condition.findings here) (consequent.findings here)
  | .branchElse condition consequent alternative => by
    rw [Stmt.findings, Stmt.findings, consequent.after_eq here]
    exact List.rel_append (List.rel_append (condition.findings here) (consequent.findings here))
      (alternative.findings _)
  | .loop condition body => by
    rw [Stmt.findings, Stmt.findings]
    exact List.rel_append (condition.findings here) (body.findings here)
  | .function related => by
    rw [Stmt.findings, Stmt.findings, related.name.define_eq]
    exact List.rel_append (related.name.redeclaring here) (related.findings _)
  | .ret keyword value => by
    cases value with
    | none =>
      rw [Stmt.findings, Stmt.findings]
      exact keyword.returning here
    | some value =>
      rw [Stmt.findings, Stmt.findings]
      exact List.rel_append (keyword.returning here) (value.findings here)
  | .classDecl name methods => by
    rw [Stmt.findings, Stmt.findings, name.define_eq]
    exact List.rel_append (name.redeclaring here) (methods.findings _)

theorem Stmt.AllRelined.findings (here : Surroundings) : Stmt.AllRelined R list list' →
    List.Forall₂ (Finding.Relined R) (Stmt.allFindings here list) (Stmt.allFindings here list')
  | .nil => by
    rw [Stmt.allFindings]
    exact .nil
  | .cons first rest => by
    rw [Stmt.allFindings, Stmt.allFindings, first.after_eq here]
    exact List.rel_append (first.findings here) (rest.findings _)

theorem FunctionDecl.Relined.findings (here : Surroundings) : FunctionDecl.Relined R f f' →
    List.Forall₂ (Finding.Relined R) (f.findings here) (f'.findings here)
  | .intro name parameters body => by
    rw [FunctionDecl.findings, FunctionDecl.findings, Surroundings.inBody, Surroundings.inBody,
      Surroundings.inBody, Surroundings.foldl_define_eq parameters]
    exact List.rel_append (Surroundings.redeclaringEach_relined parameters _) (body.findings _)

theorem FunctionDecl.AllRelined.findings (here : Surroundings) : FunctionDecl.AllRelined R list list' →
    List.Forall₂ (Finding.Relined R) (FunctionDecl.allFindings here list)
      (FunctionDecl.allFindings here list')
  | .nil => by
    rw [FunctionDecl.allFindings]
    exact .nil
  | .cons first rest => by
    rw [FunctionDecl.allFindings, FunctionDecl.allFindings]
    exact List.rel_append (first.findings here) (rest.findings here)

end

/-- A program without errors has none on other lines. -/
theorem Stmt.AllRelined.errors {program program' : List Stmt}
    (related : Stmt.AllRelined R program program') :
    List.Forall₂ (Diagnostic.Relined R) ((resolve program).filterMap Finding.error?)
      ((resolve program').filterMap Finding.error?) :=
  Finding.Relined.errors (related.findings .topLevel)

end Lox
