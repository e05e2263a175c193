import Lox.Proofs.Grammar.Derivation
import Lox.Resolution

/-! What every derived tree has in common: declarations stand only where statements are listed, and no
name or keyword in the tree is the end of the file. -/
namespace Lox

/-- The statement declares a name where it stands. -/
def Stmt.declares : Stmt → Bool
  | .var _ _ | .function _ | .classDecl _ _ => true
  | .expression _ | .print _ | .block _ | .branch _ _ _ | .loop _ _ | .ret _ _ => false

mutual

/-- No branch and no body of a loop is a declaration. -/
def Stmt.Placed : Stmt → Prop
  | .expression _ | .print _ | .var _ _ | .ret _ _ => True
  | .block body => Stmt.AllPlaced body
  | .branch _ consequent none => consequent.declares = false ∧ consequent.Placed
  | .branch _ consequent (some alternative) =>
    (consequent.declares = false ∧ consequent.Placed) ∧
      alternative.declares = false ∧ alternative.Placed
  | .loop _ body => body.declares = false ∧ body.Placed
  | .function declaration => declaration.Placed
  | .classDecl _ list => FunctionDecl.AllPlaced list

def Stmt.AllPlaced : List Stmt → Prop
  | [] => True
  | s :: rest => s.Placed ∧ Stmt.AllPlaced rest

def FunctionDecl.Placed : FunctionDecl → Prop
  | ⟨_, _, body⟩ => Stmt.AllPlaced body

def FunctionDecl.AllPlaced : List FunctionDecl → Prop
  | [] => True
  | f :: rest => f.Placed ∧ FunctionDecl.AllPlaced rest

end

theorem FunctionDecl.placed_iff (f : FunctionDecl) : f.Placed ↔ Stmt.AllPlaced f.body := by
  cases f
  rw [FunctionDecl.Placed]

theorem FunctionDecl.AllPlaced.of_mem {list : List FunctionDecl} {f : FunctionDecl}
    (placed : FunctionDecl.AllPlaced list) (member : f ∈ list) : f.Placed := by
  induction list with
  | nil => cases member
  | cons g rest ih =>
    rcases List.mem_cons.1 member with rfl | later
    · exact placed.1
    · exact ih placed.2 later

theorem FunctionDecl.findings_eq (here : Surroundings) (f : FunctionDecl) : f.findings here =
    (here.inBody []).redeclaringEach f.parameters ++
      Stmt.allFindings (here.inBody f.parameters) f.body := by
  cases f
  rw [FunctionDecl.findings]

theorem FunctionDecl.findings_subset (here : Surroundings) {list : List FunctionDecl}
    {f : FunctionDecl} (member : f ∈ list) :
    f.findings here ⊆ FunctionDecl.allFindings here list := by
  induction list with
  | nil => cases member
  | cons g rest ih =>
    rw [FunctionDecl.allFindings]
    rcases List.mem_cons.1 member with rfl | later
    · exact List.subset_append_left _ _
    · exact List.subset_append_of_subset_right _ (ih later)

theorem Surroundings.inFunction_hold (here : Surroundings) (name : Token) (readiness : Readiness) :
    (here.hold name readiness).inFunction = here.inFunction := by
  rw [hold]
  cases here.scopes <;> rfl

theorem Surroundings.inClass_hold (here : Surroundings) (name : Token) (readiness : Readiness) :
    (here.hold name readiness).inClass = here.inClass := by
  rw [hold]
  cases here.scopes <;> rfl

/-- What stands where no declaration may stand adds nothing to its scope. -/
theorem Surroundings.after_of_not_declares (here : Surroundings) :
    ∀ s : Stmt, s.declares = false → s.Placed → here.after s = here
  | .expression _, _, _ | .print _, _, _ | .block _, _, _ | .ret _ _, _, _ => rfl
  | .branch _ consequent none, _, placed => after_of_not_declares here consequent placed.1 placed.2
  | .branch _ consequent (some alternative), _, placed => by
    rw [Surroundings.after, after_of_not_declares here consequent placed.1.1 placed.1.2]
    exact after_of_not_declares here alternative placed.2.1 placed.2.2
  | .loop _ body, _, placed => after_of_not_declares here body placed.1 placed.2

mutual

/-- No name that is read and no `this` is the end of the file. -/
def Expr.NoEnd : Expr → Prop
  | .constant _ => True
  | .read _ name => name.kind ≠ .eof
  | .this _ keyword => keyword.kind ≠ .eof
  | .group part | .unary _ part | .assign _ _ part | .get part _ => part.NoEnd
  | .binary left _ right | .logical left _ right | .set left _ right => left.NoEnd ∧ right.NoEnd
  | .call callee _ arguments => callee.NoEnd ∧ Expr.AllNoEnd arguments

def Expr.AllNoEnd : List Expr → Prop
  | [] => True
  | e :: rest => e.NoEnd ∧ Expr.AllNoEnd rest

end

mutual

/-- No name that is declared or read, and no `return` and `this`, is the end of the file. -/
def Stmt.NoEnd : Stmt → Prop
  | .expression value | .print value => value.NoEnd
  | .var name value => name.kind ≠ .eof ∧ ∀ e ∈ value, e.NoEnd
  | .block body => Stmt.AllNoEnd body
  | .branch condition consequent none => condition.NoEnd ∧ consequent.NoEnd
  | .branch condition consequent (some alternative) =>
    condition.NoEnd ∧ consequent.NoEnd ∧ alternative.NoEnd
  | .loop condition body => condition.NoEnd ∧ body.NoEnd
  | .function declaration => declaration.NoEnd
  | .ret keyword value => keyword.kind ≠ .eof ∧ ∀ e ∈ value, e.NoEnd
  | .classDecl name methods => name.kind ≠ .eof ∧ FunctionDecl.AllNoEnd methods

def Stmt.AllNoEnd : List Stmt → Prop
  | [] => True
  | s :: rest => s.NoEnd ∧ Stmt.AllNoEnd rest

def FunctionDecl.NoEnd : FunctionDecl → Prop
  | ⟨name, parameters, body⟩ =>
    name.kind ≠ .eof ∧ (∀ t ∈ parameters, t.kind ≠ .eof) ∧ Stmt.AllNoEnd body

def FunctionDecl.AllNoEnd : List FunctionDecl → Prop
  | [] => True
  | f :: rest => f.NoEnd ∧ FunctionDecl.AllNoEnd rest

end

namespace Grammar

theorem whileForm_placed {initializer : Option Stmt} {condition increment : Option Expr}
    {body : Stmt} (begins : ∀ s ∈ initializer, s.Placed) (bare : body.declares = false)
    (placed : body.Placed) : (whileForm condition body initializer increment).declares = false ∧
      (whileForm condition body initializer increment).Placed := by
  cases initializer <;> cases increment <;>
    simp_all [whileForm, Stmt.declares, Stmt.Placed, Stmt.AllPlaced]

theorem Variable.placed : Variable ts n m s → s.Placed
  | .bare _ _ | .initialized _ _ _ _ => trivial

theorem Initializer.placed : Initializer ts n m r → ∀ s ∈ r, s.Placed
  | .none _, _, member => by cases member
  | .variable _ read, _, member => by cases member; exact read.placed
  | .expression _ _, _, member => by cases member; trivial

mutual

theorem Statement.placed : Statement elses isOpen ts n m s → s.declares = false ∧ s.Placed
  | .expression _ _ | .print _ _ _ | .ret _ _ _ => ⟨rfl, trivial⟩
  | .block _ body _ => ⟨rfl, body.placed⟩
  | .loop _ _ _ _ body => ⟨rfl, body.placed⟩
  | .forLoop _ _ initializer _ _ _ _ body =>
    whileForm_placed initializer.placed body.placed.1 body.placed.2
  | .branch _ _ _ _ consequent => ⟨rfl, consequent.placed⟩
  | .branchElse _ _ _ _ consequent _ _ alternative =>
    ⟨rfl, consequent.placed, alternative.placed⟩

theorem Declaration.placed : Declaration elses ts n m s → s.Placed
  | .classDecl _ _ _ list _ => list.placed
  | .function _ read => read.placed
  | .variable _ read => read.placed
  | .statement inner => inner.placed.2

theorem Declarations.placed : Declarations elses ts n m list → Stmt.AllPlaced list
  | .nil => trivial
  | .cons first later => ⟨first.placed, later.placed⟩

theorem Function.placed : Function elses ts n m f → f.Placed
  | .intro _ _ _ _ _ _ body _ => body.placed

theorem Functions.placed : Functions elses ts n m list → FunctionDecl.AllPlaced list
  | .nil => trivial
  | .cons first later => ⟨first.placed, later.placed⟩

end

theorem Precedence.node_noEnd (p : Precedence) {left right : Expr} {operator : Token}
    (first : left.NoEnd) (second : right.NoEnd) : (p.node left operator right).NoEnd := by
  cases p <;> exact ⟨first, second⟩

mutual

theorem Phrase.noEnd : Phrase r ts n m e → e.NoEnd
  | .assign _ _ value => value.noEnd
  | .set object _ _ _ value => ⟨object.noEnd, value.noEnd⟩
  | .operation part | .plain part => part.noEnd
  | .binary operand operations => operations.noEnd operand.noEnd
  | .unary _ operand => operand.noEnd
  | .call callee suffixes => suffixes.noEnd callee.noEnd
  | .constant _ | .literal _ => trivial
  | .this kind => by simp [Expr.NoEnd, kind]
  | .read kind => by simp [Expr.NoEnd, kind]
  | .group _ part _ => part.noEnd

theorem Operations.noEnd : Operations p left ts n m e → left.NoEnd → e.NoEnd
  | .done, before => before
  | .more _ operand operations, before => operations.noEnd (p.node_noEnd before operand.noEnd)

theorem Suffixes.noEnd : Suffixes callee ts n m e → callee.NoEnd → e.NoEnd
  | .done, before => before
  | .call _ list _ _ suffixes, before => suffixes.noEnd ⟨before, list.noEnd⟩
  | .get _ _ suffixes, before => suffixes.noEnd before

theorem Arguments.noEnd : Arguments ts n m list → Expr.AllNoEnd list
  | .none => trivial
  | .some list => list.noEnd

theorem ArgumentList.noEnd : ArgumentList ts n m list → Expr.AllNoEnd list
  | .one e => ⟨e.noEnd, trivial⟩
  | .more e _ list => ⟨e.noEnd, list.noEnd⟩

end

theorem OptionalPhrase.noEnd : OptionalPhrase ts n m r → ∀ e ∈ r, e.NoEnd
  | .none, _, member => by cases member
  | .some phrase, _, member => by cases member; exact phrase.noEnd

theorem ParameterList.noEnd : ParameterList ts list → ∀ t ∈ list, t.kind ≠ .eof
  | .one kind => by simp [kind]
  | .more kind _ later => List.forall_mem_cons.2 ⟨by simp [kind], later.noEnd⟩

theorem Parameters.noEnd : Parameters ts list → ∀ t ∈ list, t.kind ≠ .eof
  | .none => by simp
  | .some list => list.noEnd

theorem Variable.noEnd : Variable ts n m s → s.NoEnd
  | .bare kind _ => ⟨by simp [kind], by simp⟩
  | .initialized kind _ phrase _ => ⟨by simp [kind], by simpa using phrase.noEnd⟩

theorem Initializer.noEnd : Initializer ts n m r → ∀ s ∈ r, s.NoEnd
  | .none _, _, member => by cases member
  | .variable _ read, _, member => by cases member; exact read.noEnd
  | .expression phrase _, _, member => by cases member; exact phrase.noEnd

theorem whileForm_noEnd {initializer : Option Stmt} {condition increment : Option Expr}
    {body : Stmt} (begins : ∀ s ∈ initializer, s.NoEnd) (checks : ∀ e ∈ condition, e.NoEnd)
    (steps : ∀ e ∈ increment, e.NoEnd) (repeats : body.NoEnd) :
    (whileForm condition body initializer increment).NoEnd := by
  have condition' : (condition.getD (.constant (.boolean true))).NoEnd := by
    cases condition with
    | none => trivial
    | some condition => exact checks condition rfl
  cases initializer <;> cases increment <;> simp_all [whileForm, Stmt.NoEnd, Stmt.AllNoEnd]

mutual

theorem Statement.noEnd : Statement elses isOpen ts n m s → s.NoEnd
  | .expression phrase _ | .print _ phrase _ => phrase.noEnd
  | .ret kind value _ => ⟨by simp [kind], value.noEnd⟩
  | .block _ body _ => body.noEnd
  | .loop _ _ condition _ body => ⟨condition.noEnd, body.noEnd⟩
  | .forLoop _ _ initializer condition _ increment _ body =>
    whileForm_noEnd initializer.noEnd condition.noEnd increment.noEnd body.noEnd
  | .branch _ _ condition _ consequent => ⟨condition.noEnd, consequent.noEnd⟩
  | .branchElse _ _ condition _ consequent _ _ alternative =>
    ⟨condition.noEnd, consequent.noEnd, alternative.noEnd⟩

theorem Declaration.noEnd : Declaration elses ts n m s → s.NoEnd
  | .classDecl _ kind _ methods _ => ⟨by simp [kind], methods.noEnd⟩
  | .function _ read => read.noEnd
  | .variable _ read => read.noEnd
  | .statement inner => inner.noEnd

theorem Declarations.noEnd : Declarations elses ts n m list → Stmt.AllNoEnd list
  | .nil => trivial
  | .cons first later => ⟨first.noEnd, later.noEnd⟩

theorem Function.noEnd : Function elses ts n m f → f.NoEnd
  | .intro kind _ parameters _ _ _ body _ => ⟨by simp [kind], parameters.noEnd, body.noEnd⟩

theorem Functions.noEnd : Functions elses ts n m list → FunctionDecl.AllNoEnd list
  | .nil => trivial
  | .cons first later => ⟨first.noEnd, later.noEnd⟩

end

end Grammar

end Lox
