import Lox.Proofs.Grammar.Spelling

/-! The shape of derived trees: the operators have a meaning where they stand, names are identifiers,
and no call has too many arguments. What holds of all tokens of a source holds of those in its tree. -/
namespace Lox

/-- One of the kinds, with a property that the tokens of the source have. -/
structure Token.Is (P : Token → Prop) (kinds : List TokenKind) (t : Token) : Prop where
  kind : t.kind ∈ kinds
  property : P t

/-- The operators of a binary expression. -/
def binaryKinds : List TokenKind :=
  [.bangEqual, .equalEqual, .greater, .greaterEqual, .less, .lessEqual, .minus, .plus, .slash, .star]

section

variable (P : Token → Prop)

mutual

def Expr.Shaped : Expr → Prop
  | .constant _ => True
  | .group inner => inner.Shaped
  | .unary operator operand => operator.Is P [.bang, .minus] ∧ operand.Shaped
  | .binary left operator right => operator.Is P binaryKinds ∧ left.Shaped ∧ right.Shaped
  | .logical left operator right =>
    operator.Is P [.keyword .andWord, .keyword .orWord] ∧ left.Shaped ∧ right.Shaped
  | .read _ name => name.Is P [.identifier]
  | .assign _ name value | .get value name => name.Is P [.identifier] ∧ value.Shaped
  | .call callee closing arguments =>
    closing.Is P [.rightParen] ∧ arguments.length ≤ Grammar.maxArity ∧ callee.Shaped ∧
      Expr.AllShaped arguments
  | .set object name value => name.Is P [.identifier] ∧ object.Shaped ∧ value.Shaped
  | .this _ keyword => keyword.Is P [.keyword .thisWord]

def Expr.AllShaped : List Expr → Prop
  | [] => True
  | e :: rest => e.Shaped ∧ Expr.AllShaped rest

end

mutual

def Stmt.Shaped : Stmt → Prop
  | .expression value | .print value => value.Shaped P
  | .var name initializer => name.Is P [.identifier] ∧ ∀ e ∈ initializer, e.Shaped P
  | .block body => Stmt.AllShaped body
  | .branch condition consequent none => condition.Shaped P ∧ consequent.Shaped
  | .branch condition consequent (some alternative) =>
    condition.Shaped P ∧ consequent.Shaped ∧ alternative.Shaped
  | .loop condition body => condition.Shaped P ∧ body.Shaped
  | .function declaration => declaration.Shaped
  | .ret keyword value => keyword.Is P [.keyword .returnWord] ∧ ∀ e ∈ value, e.Shaped P
  | .classDecl name methods => name.Is P [.identifier] ∧ FunctionDecl.AllShaped methods

def Stmt.AllShaped : List Stmt → Prop
  | [] => True
  | s :: rest => s.Shaped ∧ Stmt.AllShaped rest

def FunctionDecl.Shaped : FunctionDecl → Prop
  | ⟨name, parameters, body⟩ =>
    name.Is P [.identifier] ∧ (∀ t ∈ parameters, t.Is P [.identifier]) ∧
      parameters.length ≤ Grammar.maxArity ∧ Stmt.AllShaped body

def FunctionDecl.AllShaped : List FunctionDecl → Prop
  | [] => True
  | f :: rest => f.Shaped ∧ FunctionDecl.AllShaped rest

end

end

variable {P : Token → Prop}

theorem FunctionDecl.shaped_iff (f : FunctionDecl) : f.Shaped P ↔ f.name.Is P [.identifier] ∧
    (∀ t ∈ f.parameters, t.Is P [.identifier]) ∧ f.parameters.length ≤ Grammar.maxArity ∧
      Stmt.AllShaped P f.body := by
  cases f
  rw [FunctionDecl.Shaped]

theorem FunctionDecl.AllShaped.of_mem {list : List FunctionDecl} {f : FunctionDecl}
    (shaped : FunctionDecl.AllShaped P list) (member : f ∈ list) : f.Shaped P := by
  induction list with
  | nil => cases member
  | cons g rest ih =>
    rcases List.mem_cons.1 member with rfl | later
    · exact shaped.1
    · exact ih shaped.2 later

theorem Token.Is.of_kind {t : Token} {kind : TokenKind} (same : t.kind = kind) (property : P t) :
    t.Is P [kind] := ⟨List.mem_singleton.2 same, property⟩

theorem Token.Is.kind_eq {t : Token} {kind : TokenKind} (is : t.Is P [kind]) : t.kind = kind :=
  List.mem_singleton.1 is.kind

/-- No name of a source text is `this`. -/
theorem Token.Is.ne_this {name : Token} (is : name.Is Token.Spelled [.identifier]) :
    name.lexeme ≠ Keyword.thisWord.spelling := by
  intro same
  have none := is.property.identifier is.kind_eq
  rw [Keyword.ofSpelling?_eq_some_iff.2 same] at none
  cases none

theorem Token.Is.eq_this {keyword : Token} (is : keyword.Is Token.Spelled [.keyword .thisWord]) :
    keyword.lexeme = Keyword.thisWord.spelling := is.property.keyword _ is.kind_eq

namespace Grammar

theorem Precedence.node_shaped (p : Precedence) {left right : Expr} {operator : Token}
    (among : operator.kind ∈ p.operators) (property : P operator) (first : left.Shaped P)
    (second : right.Shaped P) : (p.node left operator right).Shaped P := by
  cases p with
  | disjunction =>
    rw [node, Expr.Shaped]
    exact ⟨⟨List.mem_cons_of_mem _ among, property⟩, first, second⟩
  | conjunction =>
    rw [node, Expr.Shaped]
    exact ⟨⟨List.mem_cons.2 (.inl (List.mem_singleton.1 among)), property⟩, first, second⟩
  | _ =>
    rw [node, Expr.Shaped]
    refine ⟨⟨?_, property⟩, first, second⟩
    simp only [operators, List.mem_cons, List.not_mem_nil, or_false] at among
    simp only [binaryKinds, List.mem_cons, List.not_mem_nil, or_false]
    tauto

mutual

theorem Phrase.shaped : Phrase r ts n m e → (∀ t ∈ ts, P t) → e.Shaped P
  | .assign kind _ value, all => by
    rw [Expr.Shaped]
    exact ⟨.of_kind kind (all _ (by simp)), value.shaped fun t member => all t (by simp [member])⟩
  | .set object _ kind _ value, all => by
    rw [Expr.Shaped]
    exact ⟨.of_kind kind (all _ (by simp)), object.shaped fun t member => all t (by simp [member]),
      value.shaped fun t member => all t (by simp [member])⟩
  | .operation part, all => part.shaped all
  | .binary operand operations, all =>
    operations.shaped (fun t member => all t (by simp [member]))
      (operand.shaped fun t member => all t (by simp [member]))
  | .unary kind operand, all => by
    rw [Expr.Shaped]
    exact ⟨⟨kind, all _ (by simp)⟩, operand.shaped fun t member => all t (by simp [member])⟩
  | .plain part, all => part.shaped all
  | .call callee suffixes, all =>
    suffixes.shaped (fun t member => all t (by simp [member]))
      (callee.shaped fun t member => all t (by simp [member]))
  | .constant _, _ | .literal _, _ => by
    rw [Expr.Shaped]
    trivial
  | .this kind, all => by
    rw [Expr.Shaped]
    exact .of_kind kind (all _ (by simp))
  | .read kind, all => by
    rw [Expr.Shaped]
    exact .of_kind kind (all _ (by simp))
  | .group _ part _, all => by
    rw [Expr.Shaped]
    exact part.shaped fun t member => all t (by simp [member])

theorem Operations.shaped : Operations p left ts n m e → (∀ t ∈ ts, P t) → left.Shaped P →
    e.Shaped P
  | .done, _, before => before
  | .more kind operand operations, all, before =>
    operations.shaped (fun t member => all t (by simp [member]))
      (p.node_shaped kind (all _ (by simp)) before
        (operand.shaped fun t member => all t (by simp [member])))

theorem Suffixes.shaped : Suffixes callee ts n m e → (∀ t ∈ ts, P t) → callee.Shaped P →
    e.Shaped P
  | .done, _, before => before
  | .call _ list kind few suffixes, all, before => by
    refine suffixes.shaped (fun t member => all t (by simp [member])) ?_
    rw [Expr.Shaped]
    exact ⟨.of_kind kind (all _ (by simp)), few, before,
      list.shaped fun t member => all t (by simp [member])⟩
  | .get _ kind suffixes, all, before => by
    refine suffixes.shaped (fun t member => all t (by simp [member])) ?_
    rw [Expr.Shaped]
    exact ⟨.of_kind kind (all _ (by simp)), before⟩

theorem Arguments.shaped : Arguments ts n m list → (∀ t ∈ ts, P t) → Expr.AllShaped P list
  | .none, _ => by
    rw [Expr.AllShaped]
    trivial
  | .some list, all => list.shaped all

theorem ArgumentList.shaped : ArgumentList ts n m list → (∀ t ∈ ts, P t) → Expr.AllShaped P list
  | .one e, all => by
    rw [Expr.AllShaped, Expr.AllShaped]
    exact ⟨e.shaped all, trivial⟩
  | .more e _ list, all => by
    rw [Expr.AllShaped]
    exact ⟨e.shaped fun t member => all t (by simp [member]),
      list.shaped fun t member => all t (by simp [member])⟩

end

theorem OptionalPhrase.shaped : OptionalPhrase ts n m r → (∀ t ∈ ts, P t) → ∀ e ∈ r, e.Shaped P
  | .none, _, _, member => by cases member
  | .some phrase, all, _, member => by
    cases member
    exact phrase.shaped all

theorem ParameterList.shaped : ParameterList ts list → (∀ t ∈ ts, P t) →
    ∀ t ∈ list, t.Is P [.identifier]
  | .one kind, all => by
    simp only [List.mem_singleton, forall_eq]
    exact .of_kind kind (all _ (by simp))
  | .more kind _ later, all => by
    refine List.forall_mem_cons.2 ⟨.of_kind kind (all _ (by simp)), ?_⟩
    exact later.shaped fun t member => all t (by simp [member])

theorem Parameters.shaped : Parameters ts list → (∀ t ∈ ts, P t) → ∀ t ∈ list, t.Is P [.identifier]
  | .none, _ => by simp
  | .some list, all => list.shaped all

theorem Variable.shaped : Variable ts n m s → (∀ t ∈ ts, P t) → s.Shaped P
  | .bare kind _, all => by
    rw [Stmt.Shaped]
    exact ⟨.of_kind kind (all _ (by simp)), by simp⟩
  | .initialized kind _ phrase _, all => by
    rw [Stmt.Shaped]
    refine ⟨.of_kind kind (all _ (by simp)), fun e member => ?_⟩
    cases member
    exact phrase.shaped fun t member => all t (by simp [member])

theorem Initializer.shaped : Initializer ts n m r → (∀ t ∈ ts, P t) → ∀ s ∈ r, s.Shaped P
  | .none _, _, _, member => by cases member
  | .variable _ read, all, _, member => by
    cases member
    exact read.shaped fun t member => all t (by simp [member])
  | .expression phrase _, all, _, member => by
    cases member
    rw [Stmt.Shaped]
    exact phrase.shaped fun t member => all t (by simp [member])

theorem whileForm_shaped {initializer : Option Stmt} {condition increment : Option Expr}
    {body : Stmt} (begins : ∀ s ∈ initializer, s.Shaped P) (checks : ∀ e ∈ condition, e.Shaped P)
    (steps : ∀ e ∈ increment, e.Shaped P) (repeats : body.Shaped P) :
    (whileForm condition body initializer increment).Shaped P := by
  have condition' : (condition.getD (.constant (.boolean true))).Shaped P := by
    cases condition with
    | none =>
      rw [Option.getD_none, Expr.Shaped]
      trivial
    | some condition => exact checks condition rfl
  cases initializer <;> cases increment <;>
    simp_all [whileForm, Stmt.Shaped, Stmt.AllShaped]

mutual

theorem Statement.shaped : Statement elses isOpen ts n m s → (∀ t ∈ ts, P t) → s.Shaped P
  | .expression phrase _, all => by
    rw [Stmt.Shaped]
    exact phrase.shaped fun t member => all t (by simp [member])
  | .print _ phrase _, all => by
    rw [Stmt.Shaped]
    exact phrase.shaped fun t member => all t (by simp [member])
  | .ret kind value _, all => by
    rw [Stmt.Shaped]
    exact ⟨.of_kind kind (all _ (by simp)), value.shaped fun t member => all t (by simp [member])⟩
  | .block _ body _, all => by
    rw [Stmt.Shaped]
    exact body.shaped fun t member => all t (by simp [member])
  | .loop _ _ condition _ body, all => by
    rw [Stmt.Shaped]
    exact ⟨condition.shaped fun t member => all t (by simp [member]),
      body.shaped fun t member => all t (by simp [member])⟩
  | .forLoop _ _ initializer condition _ increment _ body, all =>
    whileForm_shaped (initializer.shaped fun t member => all t (by simp [member]))
      (condition.shaped fun t member => all t (by simp [member]))
      (increment.shaped fun t member => all t (by simp [member]))
      (body.shaped fun t member => all t (by simp [member]))
  | .branch _ _ condition _ consequent, all => by
    rw [Stmt.Shaped]
    exact ⟨condition.shaped fun t member => all t (by simp [member]),
      consequent.shaped fun t member => all t (by simp [member])⟩
  | .branchElse _ _ condition _ consequent _ _ alternative, all => by
    rw [Stmt.Shaped]
    exact ⟨condition.shaped fun t member => all t (by simp [member]),
      consequent.shaped fun t member => all t (by simp [member]),
      alternative.shaped fun t member => all t (by simp [member])⟩

theorem Declaration.shaped : Declaration elses ts n m s → (∀ t ∈ ts, P t) → s.Shaped P
  | .classDecl _ kind _ list _, all => by
    rw [Stmt.Shaped]
    exact ⟨.of_kind kind (all _ (by simp)), list.shaped fun t member => all t (by simp [member])⟩
  | .function _ read, all => by
    rw [Stmt.Shaped]
    exact read.shaped fun t member => all t (by simp [member])
  | .variable _ read, all => read.shaped fun t member => all t (by simp [member])
  | .statement part, all => part.shaped all

theorem Declarations.shaped : Declarations elses ts n m list → (∀ t ∈ ts, P t) →
    Stmt.AllShaped P list
  | .nil, _ => by
    rw [Stmt.AllShaped]
    trivial
  | .cons first later, all => by
    rw [Stmt.AllShaped]
    exact ⟨first.shaped fun t member => all t (by simp [member]),
      later.shaped fun t member => all t (by simp [member])⟩

theorem Function.shaped : Function elses ts n m f → (∀ t ∈ ts, P t) → f.Shaped P
  | .intro kind _ parameters few _ _ body _, all => by
    rw [FunctionDecl.Shaped]
    exact ⟨.of_kind kind (all _ (by simp)), parameters.shaped fun t member => all t (by simp [member]),
      few, body.shaped fun t member => all t (by simp [member])⟩

theorem Functions.shaped : Functions elses ts n m list → (∀ t ∈ ts, P t) →
    FunctionDecl.AllShaped P list
  | .nil, _ => by
    rw [FunctionDecl.AllShaped]
    trivial
  | .cons first later, all => by
    rw [FunctionDecl.AllShaped]
    exact ⟨first.shaped fun t member => all t (by simp [member]),
      later.shaped fun t member => all t (by simp [member])⟩

end

end Grammar

end Lox
