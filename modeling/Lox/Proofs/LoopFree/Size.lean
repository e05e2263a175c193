import Lox.Proofs.Grammar.Source

/-! The size of a tree is the number of its nodes, the functions declared in it included. A derived tree
without loops has no more nodes than tokens, and where no token begins a loop there is none. -/
namespace Lox

mutual

def Expr.size : Expr → Nat
  | .constant _ | .read _ _ | .this _ _ => 1
  | .group part | .unary _ part | .assign _ _ part | .get part _ => part.size + 1
  | .binary left _ right | .logical left _ right | .set left _ right => left.size + right.size + 1
  | .call callee _ arguments => callee.size + Expr.allSize arguments + 1

def Expr.allSize : List Expr → Nat
  | [] => 0
  | e :: rest => e.size + Expr.allSize rest

end

def Expr.optionSize : Option Expr → Nat
  | none => 0
  | some e => e.size

mutual

def Stmt.size : Stmt → Nat
  | .expression value | .print value => value.size + 1
  | .var _ value | .ret _ value => Expr.optionSize value + 1
  | .block body => Stmt.allSize body + 1
  | .branch condition consequent none => condition.size + consequent.size + 1
  | .branch condition consequent (some alternative) =>
    condition.size + consequent.size + alternative.size + 1
  | .loop condition body => condition.size + body.size + 1
  | .function declaration => declaration.size + 1
  | .classDecl _ methods => FunctionDecl.allSize methods + 1

def Stmt.allSize : List Stmt → Nat
  | [] => 0
  | s :: rest => s.size + Stmt.allSize rest

def FunctionDecl.size : FunctionDecl → Nat
  | ⟨_, _, body⟩ => Stmt.allSize body

def FunctionDecl.allSize : List FunctionDecl → Nat
  | [] => 0
  | f :: rest => f.size + FunctionDecl.allSize rest

end

mutual

/-- No loop stands in the statement, nor in a function declared in it. -/
def Stmt.LoopFree : Stmt → Prop
  | .expression _ | .print _ | .var _ _ | .ret _ _ => True
  | .block body => Stmt.AllLoopFree body
  | .branch _ consequent none => consequent.LoopFree
  | .branch _ consequent (some alternative) => consequent.LoopFree ∧ alternative.LoopFree
  | .loop _ _ => False
  | .function declaration => declaration.LoopFree
  | .classDecl _ methods => FunctionDecl.AllLoopFree methods

def Stmt.AllLoopFree : List Stmt → Prop
  | [] => True
  | s :: rest => s.LoopFree ∧ Stmt.AllLoopFree rest

def FunctionDecl.LoopFree : FunctionDecl → Prop
  | ⟨_, _, body⟩ => Stmt.AllLoopFree body

def FunctionDecl.AllLoopFree : List FunctionDecl → Prop
  | [] => True
  | f :: rest => f.LoopFree ∧ FunctionDecl.AllLoopFree rest

end

theorem FunctionDecl.size_eq (f : FunctionDecl) : f.size = Stmt.allSize f.body := by
  cases f
  rw [FunctionDecl.size]

theorem FunctionDecl.loopFree_iff (f : FunctionDecl) : f.LoopFree ↔ Stmt.AllLoopFree f.body := by
  cases f
  rw [FunctionDecl.LoopFree]

theorem FunctionDecl.size_le_of_mem {f : FunctionDecl} {list : List FunctionDecl} (member : f ∈ list) :
    f.size ≤ FunctionDecl.allSize list := by
  induction list with
  | nil => cases member
  | cons g rest ih =>
    rw [FunctionDecl.allSize]
    rcases List.mem_cons.1 member with rfl | later
    · omega
    · have := ih later
      omega

theorem FunctionDecl.AllLoopFree.of_mem {f : FunctionDecl} {list : List FunctionDecl}
    (free : FunctionDecl.AllLoopFree list) (member : f ∈ list) : f.LoopFree := by
  induction list with
  | nil => cases member
  | cons g rest ih =>
    rcases List.mem_cons.1 member with rfl | later
    · exact free.1
    · exact ih free.2 later

namespace Grammar

mutual

theorem Phrase.size_le : Phrase r ts n m e → e.size ≤ ts.length
  | .assign _ _ value => by
    have := value.size_le
    simp only [Expr.size, List.length_cons]
    omega
  | .set object _ _ _ value => by
    have := object.size_le
    have := value.size_le
    simp only [Expr.size, List.length_append, List.length_cons]
    omega
  | .operation inner | .plain inner => inner.size_le
  | .binary first operations => by
    have := first.size_le
    have := operations.size_le
    simp only [List.length_append]
    omega
  | .unary _ operand => by
    have := operand.size_le
    simp only [Expr.size, List.length_cons]
    omega
  | .call callee suffixes => by
    have := callee.size_le
    have := suffixes.size_le
    simp only [List.length_append]
    omega
  | .constant _ | .literal _ | .this _ | .read _ => by simp [Expr.size]
  | .group _ inner _ => by
    have := inner.size_le
    simp only [Expr.size, List.length_cons, List.length_append]
    omega

theorem Operations.size_le : Operations p left ts n m e → e.size ≤ left.size + ts.length
  | .done => by simp
  | .more _ operand later => by
    have := operand.size_le
    have := later.size_le
    have node : ∀ l o r, (p.node l o r).size = l.size + r.size + 1 := by
      intro l o r
      cases p <;> rw [Precedence.node, Expr.size]
    rw [node] at this
    simp only [List.length_cons, List.length_append]
    omega

theorem Suffixes.size_le : Suffixes callee ts n m e → e.size ≤ callee.size + ts.length
  | .done => by simp
  | .call _ arguments _ _ later => by
    have := arguments.size_le
    have := later.size_le
    simp only [Expr.size] at this
    simp only [List.length_cons, List.length_append]
    omega
  | .get _ _ later => by
    have := later.size_le
    simp only [Expr.size] at this
    simp only [List.length_cons]
    omega

theorem Arguments.size_le : Arguments ts n m list → Expr.allSize list ≤ ts.length
  | .none => by simp [Expr.allSize]
  | .some list => list.size_le

theorem ArgumentList.size_le : ArgumentList ts n m list → Expr.allSize list ≤ ts.length
  | .one e => by
    have := e.size_le
    simp only [Expr.allSize]
    omega
  | .more e _ later => by
    have := e.size_le
    have := later.size_le
    simp only [Expr.allSize, List.length_append, List.length_cons]
    omega

end

theorem OptionalPhrase.size_le : OptionalPhrase ts n m value → Expr.optionSize value ≤ ts.length
  | .none => by simp [Expr.optionSize]
  | .some e => e.size_le

theorem Variable.size_le : Variable ts n m s → s.size ≤ ts.length
  | .bare _ _ => by simp [Stmt.size, Expr.optionSize]
  | .initialized _ _ e _ => by
    have := e.size_le
    simp only [Stmt.size, Expr.optionSize, List.length_cons, List.length_append]
    omega

/-- Every `for` is a loop. -/
theorem whileForm_not_loopFree (condition : Option Expr) (body : Stmt) (initializer : Option Stmt)
    (increment : Option Expr) : ¬(whileForm condition body initializer increment).LoopFree := by
  cases initializer <;> cases increment <;> simp [whileForm, Stmt.LoopFree, Stmt.AllLoopFree]

/-- The words a loop begins with. -/
def loopWords : List TokenKind := [.keyword .whileWord, .keyword .forWord]

mutual

/-- Every node of a loop-free tree has a token of its own. -/
theorem Statement.size_le : Statement elses isOpen ts n m s → s.LoopFree →
    s.size ≤ ts.length
  | .expression e _, _ => by
    have := e.size_le
    simp only [Stmt.size, List.length_append, List.length_cons]
    omega
  | .print _ e _, _ => by
    have := e.size_le
    simp only [Stmt.size, List.length_append, List.length_cons]
    omega
  | .ret _ value _, _ => by
    have := value.size_le
    simp only [Stmt.size, List.length_append, List.length_cons]
    omega
  | .block _ body _, free => by
    have := body.size_le free
    simp only [Stmt.size, List.length_append, List.length_cons]
    omega
  | .loop _ _ _ _ _, free => free.elim
  | .forLoop _ _ _ _ _ _ _ _, free => absurd free (whileForm_not_loopFree _ _ _ _)
  | .branch _ _ condition _ consequent, free => by
    have := condition.size_le
    have := consequent.size_le free
    simp only [Stmt.size, List.length_append, List.length_cons]
    omega
  | .branchElse _ _ condition _ consequent _ _ alternative, free => by
    have := condition.size_le
    have := consequent.size_le free.1
    have := alternative.size_le free.2
    simp only [Stmt.size, List.length_append, List.length_cons]
    omega

theorem Declaration.size_le : Declaration elses ts n m s → s.LoopFree → s.size ≤ ts.length
  | .classDecl _ _ _ methods _, free => by
    have := methods.size_le free
    simp only [Stmt.size, List.length_append, List.length_cons]
    omega
  | .function _ read, free => by
    have := read.size_le free
    simp only [Stmt.size, List.length_cons]
    omega
  | .variable _ read, _ => by
    have := read.size_le
    simp only [List.length_cons]
    omega
  | .statement inner, free => inner.size_le free

theorem Declarations.size_le : Declarations elses ts n m list → Stmt.AllLoopFree list →
    Stmt.allSize list ≤ ts.length
  | .nil, _ => by simp [Stmt.allSize]
  | .cons first later, free => by
    have := first.size_le free.1
    have := later.size_le free.2
    simp only [Stmt.allSize, List.length_append]
    omega

theorem Function.size_le : Function elses ts n m f → f.LoopFree → f.size ≤ ts.length
  | .intro _ _ _ _ _ _ body _, free => by
    have := body.size_le free
    simp only [FunctionDecl.size, List.length_append, List.length_cons]
    omega

theorem Functions.size_le : Functions elses ts n m list → FunctionDecl.AllLoopFree list →
    FunctionDecl.allSize list ≤ ts.length
  | .nil, _ => by simp [FunctionDecl.allSize]
  | .cons first later, free => by
    have := first.size_le free.1
    have := later.size_le free.2
    simp only [FunctionDecl.allSize, List.length_append]
    omega

end

theorem Variable.loopFree : Variable ts n m s → s.LoopFree
  | .bare _ _ | .initialized _ _ _ _ => trivial

mutual

/-- Without the word of a loop there is none. -/
theorem Statement.loopFree : Statement elses isOpen ts n m s → (∀ t ∈ ts, t.kind ∉ loopWords) →
    s.LoopFree
  | .expression _ _, _ | .print _ _ _, _ | .ret _ _ _, _ => trivial
  | .block _ body _, without => body.loopFree fun t member => without t (by simp [member])
  | .loop keyword _ _ _ _, without => by
    have begun := without _ (List.mem_cons_self ..)
    simp [keyword, loopWords] at begun
  | .forLoop keyword _ _ _ _ _ _ _, without => by
    have begun := without _ (List.mem_cons_self ..)
    simp [keyword, loopWords] at begun
  | .branch _ _ _ _ consequent, without =>
    consequent.loopFree fun t member => without t (by simp [member])
  | .branchElse _ _ _ _ consequent _ _ alternative, without =>
    ⟨consequent.loopFree fun t member => without t (by simp [member]),
      alternative.loopFree fun t member => without t (by simp [member])⟩

theorem Declaration.loopFree : Declaration elses ts n m s → (∀ t ∈ ts, t.kind ∉ loopWords) →
    s.LoopFree
  | .classDecl _ _ _ methods _, without =>
    methods.loopFree fun t member => without t (by simp [member])
  | .function _ read, without => read.loopFree fun t member => without t (by simp [member])
  | .variable _ read, _ => read.loopFree
  | .statement inner, without => inner.loopFree without

theorem Declarations.loopFree : Declarations elses ts n m list →
    (∀ t ∈ ts, t.kind ∉ loopWords) → Stmt.AllLoopFree list
  | .nil, _ => trivial
  | .cons one others, without =>
    ⟨one.loopFree fun t member => without t (by simp [member]),
      others.loopFree fun t member => without t (by simp [member])⟩

theorem Function.loopFree : Function elses ts n m f → (∀ t ∈ ts, t.kind ∉ loopWords) →
    f.LoopFree
  | .intro _ _ _ _ _ _ body _, without => body.loopFree fun t member => without t (by simp [member])

theorem Functions.loopFree : Functions elses ts n m list → (∀ t ∈ ts, t.kind ∉ loopWords) →
    FunctionDecl.AllLoopFree list
  | .nil, _ => trivial
  | .cons one others, without =>
    ⟨one.loopFree fun t member => without t (by simp [member]),
      others.loopFree fun t member => without t (by simp [member])⟩

end

end Grammar

/-- If the source is a program at all, it has no loops. -/
def LoopFree (source : String) : Prop :=
  ∀ ⦃first program next⦄, compile source first = (.ok program, next) →
    Stmt.AllLoopFree program

theorem LoopFree.of_words (without : ∀ t ∈ (scan source).1, t.kind ∉ Grammar.loopWords) :
    LoopFree source := by
  intro first program next compiled
  obtain ⟨ts, derived, among⟩ := compile_reads compiled
  exact derived.loopFree fun t member => without t (among.subset member)

theorem LoopFree.size_le (free : LoopFree source)
    (compiled : compile source first = (.ok program, next)) :
    Stmt.allSize program ≤ (scan source).1.length := by
  obtain ⟨ts, derived, among⟩ := compile_reads compiled
  exact Nat.le_trans (derived.size_le (free compiled)) among.length_le

end Lox
