import Lox.Proofs.Grammar.Derivation
import Lox.Proofs.Token.Tiling

/-! A token is a keyword just if it is spelled as one. So no variable of a program from a source text
is called `this`, and each `this` is. -/
namespace Lox

/-- The lexeme of a word fits its kind. -/
structure Token.Spelled (t : Token) : Prop where
  identifier : t.kind = .identifier → Keyword.ofSpelling? t.lexeme = none
  keyword : ∀ k, t.kind = .keyword k → t.lexeme = k.spelling

theorem Piece.Written.spelled {t : Token} (written : Written (.token t.kind) t.lexeme.toList) :
    t.Spelled := by
  constructor
  · intro same
    cases found : Keyword.ofSpelling? t.lexeme with
    | none => rfl
    | some k =>
      have spelled := Keyword.ofSpelling?_eq_some_iff.1 found
      have word := written.kind_of_spelling (k := k) (by rwa [String.ofList_toList])
      rw [same] at word
      cases word
  · intro k same
    rw [same] at written
    cases written with
    | keyword spelled => rwa [String.ofList_toList] at spelled
    | symbol among => exact absurd rfl ((kind_of_mem_symbols among).2.2.2 k)

theorem scan_spelled (source : String) : ∀ t ∈ (scan source).1, t.Spelled := by
  intro t member
  obtain ⟨items, last, scanned, genuine⟩ := Item.scanFrom_genuine 1 source.toList
  rw [Item.scan_of_ended ((Item.scan_eq source).trans scanned)] at member
  rcases List.mem_append.1 member with before | same
  · exact (genuine t before).written.spelled
  · obtain rfl := List.mem_singleton.1 same
    exact ⟨(nomatch ·), fun k => (nomatch ·)⟩

mutual

/-- Every `this` is spelled so. -/
def Expr.Spelled : Expr → Prop
  | .constant _ | .read _ _ => True
  | .this _ keyword => keyword.lexeme = Keyword.thisWord.spelling
  | .group part | .unary _ part | .assign _ _ part | .get part _ => part.Spelled
  | .binary left _ right | .logical left _ right | .set left _ right => left.Spelled ∧ right.Spelled
  | .call callee _ arguments => callee.Spelled ∧ Expr.AllSpelled arguments

def Expr.AllSpelled : List Expr → Prop
  | [] => True
  | e :: rest => e.Spelled ∧ Expr.AllSpelled rest

end

mutual

/-- Every `this` is spelled so, and no variable is. -/
def Stmt.Spelled : Stmt → Prop
  | .expression value | .print value => value.Spelled
  | .var name initializer =>
    name.lexeme ≠ Keyword.thisWord.spelling ∧ ∀ e ∈ initializer, e.Spelled
  | .block body => Stmt.AllSpelled body
  | .branch condition consequent none => condition.Spelled ∧ consequent.Spelled
  | .branch condition consequent (some alternative) =>
    condition.Spelled ∧ consequent.Spelled ∧ alternative.Spelled
  | .loop condition body => condition.Spelled ∧ body.Spelled
  | .function declaration => declaration.Spelled
  | .ret _ value => ∀ e ∈ value, e.Spelled
  | .classDecl _ methods => FunctionDecl.AllSpelled methods

def Stmt.AllSpelled : List Stmt → Prop
  | [] => True
  | s :: rest => s.Spelled ∧ Stmt.AllSpelled rest

def FunctionDecl.Spelled : FunctionDecl → Prop
  | ⟨_, _, body⟩ => Stmt.AllSpelled body

def FunctionDecl.AllSpelled : List FunctionDecl → Prop
  | [] => True
  | f :: rest => f.Spelled ∧ FunctionDecl.AllSpelled rest

end

theorem FunctionDecl.spelled_iff (f : FunctionDecl) : f.Spelled ↔ Stmt.AllSpelled f.body := by
  cases f
  rw [FunctionDecl.Spelled]

theorem FunctionDecl.AllSpelled.of_mem {list : List FunctionDecl} {f : FunctionDecl}
    (spelled : FunctionDecl.AllSpelled list) (member : f ∈ list) : f.Spelled := by
  induction list with
  | nil => cases member
  | cons g rest ih =>
    rcases List.mem_cons.1 member with rfl | later
    · exact spelled.1
    · exact ih spelled.2 later

namespace Grammar

theorem Precedence.node_spelled (p : Precedence) (left : Expr) (operator : Token) (right : Expr) :
    (p.node left operator right).Spelled ↔ left.Spelled ∧ right.Spelled := by
  cases p <;> simp [Precedence.node, Expr.Spelled]

/-- All tokens are spelled as their kinds say. -/
abbrev AllTokensSpelled (ts : List Token) : Prop := ∀ t ∈ ts, t.Spelled

mutual

theorem Phrase.spelled : Phrase r ts n m e → AllTokensSpelled ts → e.Spelled
  | .assign _ _ value, all => by
    rw [Expr.Spelled]
    exact value.spelled fun t member => all t (by simp [member])
  | .set object _ _ _ value, all => by
    rw [Expr.Spelled]
    exact ⟨object.spelled fun t member => all t (by simp [member]),
      value.spelled fun t member => all t (by simp [member])⟩
  | .operation part, all => part.spelled all
  | .binary operand operations, all =>
    operations.spelled (fun t member => all t (by simp [member]))
      (operand.spelled fun t member => all t (by simp [member]))
  | .unary _ operand, all => by
    rw [Expr.Spelled]
    exact operand.spelled fun t member => all t (by simp [member])
  | .plain part, all => part.spelled all
  | .call callee suffixes, all =>
    suffixes.spelled (fun t member => all t (by simp [member]))
      (callee.spelled fun t member => all t (by simp [member]))
  | .constant _, _ | .literal _, _ | .read _, _ => by
    rw [Expr.Spelled]
    trivial
  | .this kind, all => by
    rw [Expr.Spelled]
    exact (all _ (List.mem_singleton.2 rfl)).keyword _ kind
  | .group _ part _, all => by
    rw [Expr.Spelled]
    exact part.spelled fun t member => all t (by simp [member])

theorem Operations.spelled : Operations p left ts n m e → AllTokensSpelled ts → left.Spelled →
    e.Spelled
  | .done, _, before => before
  | .more _ operand operations, all, before =>
    operations.spelled (fun t member => all t (by simp [member]))
      ((Precedence.node_spelled ..).2
        ⟨before, operand.spelled fun t member => all t (by simp [member])⟩)

theorem Suffixes.spelled : Suffixes callee ts n m e → AllTokensSpelled ts → callee.Spelled →
    e.Spelled
  | .done, _, before => before
  | .call _ list _ _ suffixes, all, before => by
    refine suffixes.spelled (fun t member => all t (by simp [member])) ?_
    rw [Expr.Spelled]
    exact ⟨before, list.spelled fun t member => all t (by simp [member])⟩
  | .get _ _ suffixes, all, before => by
    refine suffixes.spelled (fun t member => all t (by simp [member])) ?_
    rwa [Expr.Spelled]

theorem Arguments.spelled : Arguments ts n m list → AllTokensSpelled ts → Expr.AllSpelled list
  | .none, _ => by
    rw [Expr.AllSpelled]
    trivial
  | .some list, all => list.spelled all

theorem ArgumentList.spelled : ArgumentList ts n m list → AllTokensSpelled ts →
    Expr.AllSpelled list
  | .one e, all => by
    rw [Expr.AllSpelled, Expr.AllSpelled]
    exact ⟨e.spelled all, trivial⟩
  | .more e _ list, all => by
    rw [Expr.AllSpelled]
    exact ⟨e.spelled fun t member => all t (by simp [member]),
      list.spelled fun t member => all t (by simp [member])⟩

end

theorem OptionalPhrase.spelled : OptionalPhrase ts n m r → AllTokensSpelled ts →
    ∀ e ∈ r, e.Spelled
  | .none, _, _, member => by cases member
  | .some phrase, all, _, member => by
    cases member
    exact phrase.spelled all

theorem Variable.spelled : Variable ts n m s → AllTokensSpelled ts → s.Spelled
  | .bare kind _, all => by
    have word := (all _ (by simp)).identifier kind
    refine ⟨fun same => ?_, fun e member => by cases member⟩
    rw [Keyword.ofSpelling?_eq_some_iff.2 same] at word
    cases word
  | .initialized kind _ phrase _, all => by
    have word := (all _ (List.mem_cons_self ..)).identifier kind
    refine ⟨fun same => ?_, fun e member => ?_⟩
    · rw [Keyword.ofSpelling?_eq_some_iff.2 same] at word
      cases word
    · cases member
      exact phrase.spelled fun t member => all t (by simp [member])

theorem Initializer.spelled : Initializer ts n m r → AllTokensSpelled ts → ∀ s ∈ r, s.Spelled
  | .none _, _, _, member => by cases member
  | .variable _ read, all, _, member => by
    cases member
    exact read.spelled fun t member => all t (by simp [member])
  | .expression phrase _, all, _, member => by
    cases member
    exact phrase.spelled fun t member => all t (by simp [member])

theorem whileForm_spelled {initializer : Option Stmt} {condition increment : Option Expr}
    {body : Stmt} (begins : ∀ s ∈ initializer, s.Spelled) (checks : ∀ e ∈ condition, e.Spelled)
    (steps : ∀ e ∈ increment, e.Spelled) (repeats : body.Spelled) :
    (whileForm condition body initializer increment).Spelled := by
  have condition' : (condition.getD (.constant (.boolean true))).Spelled := by
    cases condition with
    | none =>
      rw [Option.getD_none, Expr.Spelled]
      trivial
    | some condition => exact checks condition rfl
  cases initializer <;> cases increment <;>
    simp_all [whileForm, Stmt.Spelled, Stmt.AllSpelled]

mutual

theorem Statement.spelled : Statement elses isOpen ts n m s → AllTokensSpelled ts → s.Spelled
  | .expression phrase _, all => by
    rw [Stmt.Spelled]
    exact phrase.spelled fun t member => all t (by simp [member])
  | .print _ phrase _, all => by
    rw [Stmt.Spelled]
    exact phrase.spelled fun t member => all t (by simp [member])
  | .ret _ value _, all => by
    rw [Stmt.Spelled]
    exact value.spelled fun t member => all t (by simp [member])
  | .block _ body _, all => by
    rw [Stmt.Spelled]
    exact body.spelled fun t member => all t (by simp [member])
  | .loop _ _ condition _ body, all => by
    rw [Stmt.Spelled]
    exact ⟨condition.spelled fun t member => all t (by simp [member]),
      body.spelled fun t member => all t (by simp [member])⟩
  | .forLoop _ _ initializer condition _ increment _ body, all =>
    whileForm_spelled (initializer.spelled fun t member => all t (by simp [member]))
      (condition.spelled fun t member => all t (by simp [member]))
      (increment.spelled fun t member => all t (by simp [member]))
      (body.spelled fun t member => all t (by simp [member]))
  | .branch _ _ condition _ consequent, all => by
    rw [Stmt.Spelled]
    exact ⟨condition.spelled fun t member => all t (by simp [member]),
      consequent.spelled fun t member => all t (by simp [member])⟩
  | .branchElse _ _ condition _ consequent _ _ alternative, all => by
    rw [Stmt.Spelled]
    exact ⟨condition.spelled fun t member => all t (by simp [member]),
      consequent.spelled fun t member => all t (by simp [member]),
      alternative.spelled fun t member => all t (by simp [member])⟩

theorem Declaration.spelled : Declaration elses ts n m s → AllTokensSpelled ts → s.Spelled
  | .classDecl _ _ _ list _, all => by
    rw [Stmt.Spelled]
    exact list.spelled fun t member => all t (by simp [member])
  | .function _ read, all => by
    rw [Stmt.Spelled]
    exact read.spelled fun t member => all t (by simp [member])
  | .variable _ read, all => read.spelled fun t member => all t (by simp [member])
  | .statement part, all => part.spelled all

theorem Declarations.spelled : Declarations elses ts n m list → AllTokensSpelled ts →
    Stmt.AllSpelled list
  | .nil, _ => by
    rw [Stmt.AllSpelled]
    trivial
  | .cons first later, all => by
    rw [Stmt.AllSpelled]
    exact ⟨first.spelled fun t member => all t (by simp [member]),
      later.spelled fun t member => all t (by simp [member])⟩

theorem Function.spelled : Function elses ts n m f → AllTokensSpelled ts → f.Spelled
  | .intro _ _ _ _ _ _ body _, all => by
    rw [FunctionDecl.Spelled]
    exact body.spelled fun t member => all t (by simp [member])

theorem Functions.spelled : Functions elses ts n m list → AllTokensSpelled ts →
    FunctionDecl.AllSpelled list
  | .nil, _ => by
    rw [FunctionDecl.AllSpelled]
    trivial
  | .cons first later, all => by
    rw [FunctionDecl.AllSpelled]
    exact ⟨first.spelled fun t member => all t (by simp [member]),
      later.spelled fun t member => all t (by simp [member])⟩

end

end Grammar

end Lox
