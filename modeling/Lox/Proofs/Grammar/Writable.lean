import Lox.Proofs.Decimal.Unsigned
import Lox.Proofs.Grammar.Derivation
import Lox.Proofs.Token.Tiling

/-! The constants of an accepted program are of the kinds that tokens are written for: its numbers have
no sign and its strings no quote in them. -/
namespace Lox

/-- There is a token for the constant. -/
def Constant.Writable : Constant → Prop
  | .nil | .boolean _ => True
  | .number x => Decimal.Unsigned x
  | .string s => '"' ∉ s.toList

mutual

def Expr.Writable : Expr → Prop
  | .constant c => c.Writable
  | .read _ _ | .this _ _ => True
  | .group part | .unary _ part | .assign _ _ part | .get part _ => part.Writable
  | .binary left _ right | .logical left _ right | .set left _ right =>
    left.Writable ∧ right.Writable
  | .call callee _ arguments => callee.Writable ∧ Expr.AllWritable arguments

def Expr.AllWritable : List Expr → Prop
  | [] => True
  | e :: rest => e.Writable ∧ Expr.AllWritable rest

end

mutual

def Stmt.Writable : Stmt → Prop
  | .expression value | .print value => value.Writable
  | .var _ value | .ret _ value => ∀ e ∈ value, e.Writable
  | .block body => Stmt.AllWritable body
  | .branch condition consequent none => condition.Writable ∧ consequent.Writable
  | .branch condition consequent (some alternative) =>
    condition.Writable ∧ consequent.Writable ∧ alternative.Writable
  | .loop condition body => condition.Writable ∧ body.Writable
  | .function declaration => declaration.Writable
  | .classDecl _ methods => FunctionDecl.AllWritable methods

def Stmt.AllWritable : List Stmt → Prop
  | [] => True
  | s :: rest => s.Writable ∧ Stmt.AllWritable rest

def FunctionDecl.Writable : FunctionDecl → Prop
  | ⟨_, _, body⟩ => Stmt.AllWritable body

def FunctionDecl.AllWritable : List FunctionDecl → Prop
  | [] => True
  | f :: rest => f.Writable ∧ FunctionDecl.AllWritable rest

end

/-- A string's text has quotes at its ends only. -/
theorem Piece.Written.content {text : List Char} (written : Piece.Written (.token .string) text) :
    '"' ∉ (text.drop 1).dropLast := by
  cases written with
  | symbol among => exact absurd rfl (kind_of_mem_symbols among).2.1
  | string inside => simpa using inside

/-- What is read from a token of a source text. -/
theorem Token.Genuine.writable {t : Token} (genuine : t.Genuine)
    (kind : t.kind ∈ [.number, .string]) : (Grammar.literalValue t).Writable := by
  have written := genuine.written
  simp only [List.mem_cons, List.not_mem_nil, or_false] at kind
  rcases kind with kind | kind <;> rw [Grammar.literalValue, genuine.literal, kind]
  · exact .scaled _ _
  · rw [kind] at written
    simpa [Piece.literal, Constant.Writable] using written.content

namespace Grammar

theorem Precedence.node_writable (p : Precedence) {left right : Expr} (operator : Token)
    (first : left.Writable) (second : right.Writable) : (p.node left operator right).Writable := by
  cases p <;>
  · rw [node, Expr.Writable]
    exact ⟨first, second⟩

mutual

theorem Phrase.writable : Phrase r ts n m e → (∀ t ∈ ts, t.Genuine) → e.Writable
  | .assign _ _ value, all => by
    rw [Expr.Writable]
    exact value.writable fun t member => all t (by simp [member])
  | .set object _ _ _ value, all => by
    rw [Expr.Writable]
    exact ⟨object.writable fun t member => all t (by simp [member]),
      value.writable fun t member => all t (by simp [member])⟩
  | .operation part, all | .plain part, all => part.writable all
  | .binary operand operations, all =>
    operations.writable (fun t member => all t (by simp [member]))
      (operand.writable fun t member => all t (by simp [member]))
  | .unary _ operand, all => by
    rw [Expr.Writable]
    exact operand.writable fun t member => all t (by simp [member])
  | .call callee suffixes, all =>
    suffixes.writable (fun t member => all t (by simp [member]))
      (callee.writable fun t member => all t (by simp [member]))
  | .constant among, _ => by
    simp only [List.mem_cons, List.not_mem_nil, or_false, Prod.mk.injEq] at among
    rcases among with ⟨-, rfl⟩ | ⟨-, rfl⟩ | ⟨-, rfl⟩ <;> simp [Expr.Writable, Constant.Writable]
  | .literal kind, all => by
    rw [Expr.Writable]
    exact (all _ (by simp)).writable kind
  | .this _, _ | .read _, _ => by
    rw [Expr.Writable]
    trivial
  | .group _ part _, all => by
    rw [Expr.Writable]
    exact part.writable fun t member => all t (by simp [member])

theorem Operations.writable : Operations p left ts n m e → (∀ t ∈ ts, t.Genuine) → left.Writable →
    e.Writable
  | .done, _, before => before
  | .more _ operand operations, all, before =>
    operations.writable (fun t member => all t (by simp [member]))
      (p.node_writable _ before (operand.writable fun t member => all t (by simp [member])))

theorem Suffixes.writable : Suffixes callee ts n m e → (∀ t ∈ ts, t.Genuine) → callee.Writable →
    e.Writable
  | .done, _, before => before
  | .call _ list _ _ suffixes, all, before => by
    refine suffixes.writable (fun t member => all t (by simp [member])) ?_
    rw [Expr.Writable]
    exact ⟨before, list.writable fun t member => all t (by simp [member])⟩
  | .get _ _ suffixes, all, before => by
    refine suffixes.writable (fun t member => all t (by simp [member])) ?_
    rw [Expr.Writable]
    exact before

theorem Arguments.writable : Arguments ts n m list → (∀ t ∈ ts, t.Genuine) → Expr.AllWritable list
  | .none, _ => by
    rw [Expr.AllWritable]
    trivial
  | .some list, all => list.writable all

theorem ArgumentList.writable : ArgumentList ts n m list → (∀ t ∈ ts, t.Genuine) →
    Expr.AllWritable list
  | .one e, all => by
    rw [Expr.AllWritable, Expr.AllWritable]
    exact ⟨e.writable all, trivial⟩
  | .more e _ list, all => by
    rw [Expr.AllWritable]
    exact ⟨e.writable fun t member => all t (by simp [member]),
      list.writable fun t member => all t (by simp [member])⟩

end

theorem OptionalPhrase.writable : OptionalPhrase ts n m r → (∀ t ∈ ts, t.Genuine) →
    ∀ e ∈ r, e.Writable
  | .none, _, _, member => by cases member
  | .some phrase, all, _, member => by
    cases member
    exact phrase.writable all

theorem Variable.writable : Variable ts n m s → (∀ t ∈ ts, t.Genuine) → s.Writable
  | .bare _ _, _ => by
    rw [Stmt.Writable]
    simp
  | .initialized _ _ phrase _, all => by
    rw [Stmt.Writable]
    intro e member
    cases member
    exact phrase.writable fun t member => all t (by simp [member])

theorem Initializer.writable : Initializer ts n m r → (∀ t ∈ ts, t.Genuine) → ∀ s ∈ r, s.Writable
  | .none _, _, _, member => by cases member
  | .variable _ read, all, _, member => by
    cases member
    exact read.writable fun t member => all t (by simp [member])
  | .expression phrase _, all, _, member => by
    cases member
    rw [Stmt.Writable]
    exact phrase.writable fun t member => all t (by simp [member])

theorem whileForm_writable {initializer : Option Stmt} {condition increment : Option Expr}
    {body : Stmt} (begins : ∀ s ∈ initializer, s.Writable) (checks : ∀ e ∈ condition, e.Writable)
    (steps : ∀ e ∈ increment, e.Writable) (repeats : body.Writable) :
    (whileForm condition body initializer increment).Writable := by
  have condition' : (condition.getD (.constant (.boolean true))).Writable := by
    cases condition with
    | none =>
      rw [Option.getD_none, Expr.Writable]
      trivial
    | some condition => exact checks condition rfl
  cases initializer <;> cases increment <;>
    simp_all [whileForm, Stmt.Writable, Stmt.AllWritable]

mutual

theorem Statement.writable : Statement elses isOpen ts n m s → (∀ t ∈ ts, t.Genuine) → s.Writable
  | .expression phrase _, all | .print _ phrase _, all => by
    rw [Stmt.Writable]
    exact phrase.writable fun t member => all t (by simp [member])
  | .ret _ value _, all => by
    rw [Stmt.Writable]
    exact value.writable fun t member => all t (by simp [member])
  | .block _ body _, all => by
    rw [Stmt.Writable]
    exact body.writable fun t member => all t (by simp [member])
  | .loop _ _ condition _ body, all => by
    rw [Stmt.Writable]
    exact ⟨condition.writable fun t member => all t (by simp [member]),
      body.writable fun t member => all t (by simp [member])⟩
  | .forLoop _ _ initializer condition _ increment _ body, all =>
    whileForm_writable (initializer.writable fun t member => all t (by simp [member]))
      (condition.writable fun t member => all t (by simp [member]))
      (increment.writable fun t member => all t (by simp [member]))
      (body.writable fun t member => all t (by simp [member]))
  | .branch _ _ condition _ consequent, all => by
    rw [Stmt.Writable]
    exact ⟨condition.writable fun t member => all t (by simp [member]),
      consequent.writable fun t member => all t (by simp [member])⟩
  | .branchElse _ _ condition _ consequent _ _ alternative, all => by
    rw [Stmt.Writable]
    exact ⟨condition.writable fun t member => all t (by simp [member]),
      consequent.writable fun t member => all t (by simp [member]),
      alternative.writable fun t member => all t (by simp [member])⟩

theorem Declaration.writable : Declaration elses ts n m s → (∀ t ∈ ts, t.Genuine) → s.Writable
  | .classDecl _ _ _ list _, all => by
    rw [Stmt.Writable]
    exact list.writable fun t member => all t (by simp [member])
  | .function _ read, all => by
    rw [Stmt.Writable]
    exact read.writable fun t member => all t (by simp [member])
  | .variable _ read, all => read.writable fun t member => all t (by simp [member])
  | .statement part, all => part.writable all

theorem Declarations.writable : Declarations elses ts n m list → (∀ t ∈ ts, t.Genuine) →
    Stmt.AllWritable list
  | .nil, _ => by
    rw [Stmt.AllWritable]
    trivial
  | .cons first later, all => by
    rw [Stmt.AllWritable]
    exact ⟨first.writable fun t member => all t (by simp [member]),
      later.writable fun t member => all t (by simp [member])⟩

theorem Function.writable : Function elses ts n m f → (∀ t ∈ ts, t.Genuine) → f.Writable
  | .intro _ _ _ _ _ _ body _, all => by
    rw [FunctionDecl.Writable]
    exact body.writable fun t member => all t (by simp [member])

theorem Functions.writable : Functions elses ts n m list → (∀ t ∈ ts, t.Genuine) →
    FunctionDecl.AllWritable list
  | .nil, _ => by
    rw [FunctionDecl.AllWritable]
    trivial
  | .cons first later, all => by
    rw [FunctionDecl.AllWritable]
    exact ⟨first.writable fun t member => all t (by simp [member]),
      later.writable fun t member => all t (by simp [member])⟩

end

end Grammar

end Lox
