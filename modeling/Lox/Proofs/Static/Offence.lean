import Lox.Resolution

/-! The static rules, told from where things stand in a program and not from a walk through it. A spot is
a node with all the nodes around it, each with the nodes before it that have the same parent; whether it
offends against a rule can be seen from that alone. -/
namespace Lox

/-- A part of a program. The parameters of a function and the statements of its body are parts of one
node. -/
inductive Node where
  | statement (s : Stmt)
  | function (f : FunctionDecl)
  | parameter (name : Token)
  | expression (e : Expr)

namespace Node

/-- The parts in which resolution goes through them. -/
def children : Node → List Node
  | .statement (.expression value) | .statement (.print value) => [.expression value]
  | .statement (.var _ value) | .statement (.ret _ value) => value.toList.map .expression
  | .statement (.block body) => body.map .statement
  | .statement (.branch condition consequent alternative) =>
    .expression condition :: .statement consequent :: alternative.toList.map .statement
  | .statement (.loop condition body) => [.expression condition, .statement body]
  | .statement (.function declaration) => [.function declaration]
  | .statement (.classDecl _ methods) => methods.map .function
  | .function f => f.parameters.map .parameter ++ f.body.map .statement
  | .parameter _ => []
  | .expression (.constant _) | .expression (.read _ _) | .expression (.this _ _) => []
  | .expression (.group part) | .expression (.unary _ part) | .expression (.assign _ _ part)
  | .expression (.get part _) => [.expression part]
  | .expression (.binary left _ right) | .expression (.logical left _ right) =>
    [.expression left, .expression right]
  | .expression (.set object _ value) => [.expression value, .expression object]
  | .expression (.call callee _ arguments) => .expression callee :: arguments.map .expression

/-- The name that is declared where the node stands. A method is no declaration. -/
def declares? : Node → Option Token
  | .statement (.var name _) | .statement (.classDecl name _) | .parameter name => some name
  | .statement (.function declaration) => some declaration.name
  | _ => none

/-- The node itself, and not just a part of it, may offend. -/
def speaks : Node → Bool
  | .expression (.read _ _) | .expression (.this _ _) | .statement (.ret _ _) => true
  | node => node.declares?.isSome

/-- Declarations directly in the node share a local scope. -/
def isScope : Node → Bool
  | .statement (.block _) | .function _ => true
  | _ => false

/-- The body of a function or a method. -/
def isFunction : Node → Bool
  | .function _ => true
  | _ => false

def isClass : Node → Bool
  | .statement (.classDecl _ _) => true
  | _ => false

end Node

/-- A node and those before it with the same parent. -/
structure Step where
  node : Node
  elder : List Node

/-- A node, innermost, with the nodes around it. -/
abbrev Spot := List Step

/-- The spots of nodes that stand one behind the other, and of their parts. -/
inductive Among : (outer : Spot) → (elder nodes : List Node) → Spot → Prop where
  | here : Among outer elder (node :: rest) (⟨node, elder⟩ :: outer)
  | inside : Among (⟨node, elder⟩ :: outer) [] node.children spot →
      Among outer elder (node :: rest) spot
  | later : Among outer (elder ++ [node]) rest spot → Among outer elder (node :: rest) spot

/-- A spot of a program. -/
def Spot.Of (program : List Stmt) (spot : Spot) : Prop := Among [] [] (program.map .statement) spot

/-- What is declared directly in the innermost of these is local. -/
def Spot.isLocal (outer : Spot) : Bool := outer.head?.any (·.node.isScope)

/-- One of the nodes declares the name. -/
def Declared (nodes : List Node) (name : String) : Prop :=
  ∃ node ∈ nodes, ∃ other, node.declares? = some other ∧ other.lexeme = name

/-- The spots stand in the initializer of a local variable of that name, which is the first in its scope
to be declared under it. -/
def Spot.Initializes (outer : Spot) (name : String) : Prop :=
  ∃ inner x value elder scope, outer = inner ++ ⟨.statement (.var x value), elder⟩ :: scope ∧
    Spot.isLocal scope ∧ ¬Declared elder x.lexeme ∧ x.lexeme = name

/-- What is wrong at a spot, and the token that is to blame. -/
inductive Offends : Spot → Token → StaticError → Prop where
  /-- A name is declared that was declared before in the same local scope. -/
  | redeclared : node.declares? = some name → Spot.isLocal outer → Declared elder name.lexeme →
      Offends (⟨node, elder⟩ :: outer) name .redeclared
  /-- A local variable is read in its own initializer. -/
  | ownInitializer : Spot.Initializes outer name.lexeme →
      Offends (⟨.expression (.read i name), elder⟩ :: outer) name .ownInitializer
  /-- A `return` stands in no function. -/
  | returnOutsideFunction : (∀ step ∈ outer, step.node.isFunction = false) →
      Offends (⟨.statement (.ret keyword value), elder⟩ :: outer) keyword .returnOutsideFunction
  /-- A `this` stands in no class. -/
  | thisOutsideClass : (∀ step ∈ outer, step.node.isClass = false) →
      Offends (⟨.expression (.this i keyword), elder⟩ :: outer) keyword .thisOutsideClass

/-- No spot offends twice. -/
theorem Offends.unique {spot : Spot} {t t' : Token} {e e' : StaticError}
    (offends : Offends spot t e) (offends' : Offends spot t' e') : t = t' ∧ e = e' := by
  cases offends with
  | redeclared declares _ _ =>
    cases offends' with
    | redeclared declares' _ _ => exact ⟨Option.some.inj (declares.symm.trans declares'), rfl⟩
    | _ => cases declares
  | _ =>
    cases offends' with
    | redeclared declares _ _ => cases declares
    | _ => exact ⟨rfl, rfl⟩

/-- A spot with what is wrong there. -/
structure Offence where
  spot : Spot
  token : Token
  error : StaticError

/-- An offence as it is reported. -/
def Offence.report (o : Offence) : Diagnostic :=
  .static o.token.line (.atLexeme o.token.lexeme) o.error

/-- The offences at some nodes and in their parts, each at a spot of its own, are reported in order. -/
def Accounts (reported : List Diagnostic) (outer : Spot) (elder nodes : List Node) : Prop :=
  ∃ offences : List Offence, (offences.map (·.spot)).Nodup ∧
    (∀ o, o ∈ offences ↔ Among outer elder nodes o.spot ∧ Offends o.spot o.token o.error) ∧
    reported = offences.map Offence.report

section

variable {outer spot : Spot} {elder nodes xs ys : List Node} {node : Node}

/-- The spot tells which of the nodes it is in: the one with so many before it. -/
theorem Among.place (among : Among outer elder nodes spot) :
    ∃ inner node before, spot = inner ++ ⟨node, before⟩ :: outer ∧
      elder.length ≤ before.length ∧ before.length < elder.length + nodes.length := by
  induction among with
  | @here outer elder node rest => exact ⟨[], node, elder, rfl, Nat.le_refl _, by simp⟩
  | @inside node elder outer spot rest _ ih =>
    obtain ⟨inner, child, before, rfl, -, -⟩ := ih
    exact ⟨inner ++ [⟨child, before⟩], node, elder, by simp, Nat.le_refl _, by simp⟩
  | later _ ih =>
    obtain ⟨inner, node, before, same, above, below⟩ := ih
    simp only [List.length_append, List.length_cons, List.length_nil] at above below
    exact ⟨inner, node, before, same, by omega, by simp only [List.length_cons]; omega⟩

theorem Among.append_iff :
    Among outer elder (xs ++ ys) spot ↔ Among outer elder xs spot ∨ Among outer (elder ++ xs) ys spot := by
  induction xs generalizing elder with
  | nil =>
    rw [List.nil_append, List.append_nil]
    constructor
    · exact .inr
    · rintro (none | among)
      · cases none
      · exact among
  | cons x xs ih =>
    have joined : elder ++ x :: xs = (elder ++ [x]) ++ xs := by simp
    rw [List.cons_append, joined]
    constructor
    · rintro (_ | inner | later)
      · exact .inl .here
      · exact .inl (.inside inner)
      · rcases ih.1 later with left | right
        · exact .inl (.later left)
        · exact .inr right
    · rintro ((_ | inner | later) | right)
      · exact .here
      · exact .inside inner
      · exact .later (ih.2 (.inl later))
      · exact .later (ih.2 (.inr right))

theorem Among.single_iff : Among outer elder [node] spot ↔
    spot = ⟨node, elder⟩ :: outer ∨ Among (⟨node, elder⟩ :: outer) [] node.children spot := by
  constructor
  · rintro (_ | inner | none)
    · exact .inl rfl
    · exact .inr inner
    · cases none
  · rintro (rfl | inner)
    · exact .here
    · exact .inside inner

theorem Among.length_lt (among : Among outer elder nodes spot) : outer.length < spot.length := by
  obtain ⟨inner, node, before, rfl, -, -⟩ := among.place
  simp only [List.length_append, List.length_cons]
  omega

/-- No spot is in two of the nodes. -/
theorem Among.apart (left : Among outer elder xs spot) (right : Among outer (elder ++ xs) ys spot) :
    False := by
  obtain ⟨inner, node, before, same, -, below⟩ := left.place
  obtain ⟨inner', node', before', same', above, -⟩ := right.place
  have both : inner ++ [⟨node, before⟩] ++ outer = inner' ++ [⟨node', before'⟩] ++ outer := by
    simp [← same, ← same']
  have ends := List.append_inj_right (List.append_cancel_right both) (by
    have lengths := congrArg List.length both
    simp only [List.length_append, List.length_cons, List.length_nil] at lengths
    omega)
  cases ends
  rw [List.length_append] at above
  omega

theorem Accounts.nil : Accounts [] outer elder [] := by
  refine ⟨[], List.nodup_nil, fun o => ?_, rfl⟩
  constructor
  · rintro ⟨⟩
  · rintro ⟨⟨⟩, -⟩

theorem Accounts.append {first second : List Diagnostic} (left : Accounts first outer elder xs)
    (right : Accounts second outer (elder ++ xs) ys) :
    Accounts (first ++ second) outer elder (xs ++ ys) := by
  obtain ⟨os, once, all, rfl⟩ := left
  obtain ⟨os', once', all', rfl⟩ := right
  refine ⟨os ++ os', ?_, fun o => ?_, List.map_append.symm⟩
  · rw [List.map_append, List.nodup_append]
    refine ⟨once, once', fun spot inLeft spot' inRight same => ?_⟩
    obtain ⟨o, member, rfl⟩ := List.mem_map.1 inLeft
    obtain ⟨o', member', rfl⟩ := List.mem_map.1 inRight
    exact ((all o).1 member).1.apart (same ▸ ((all' o').1 member').1)
  · rw [List.mem_append, all, all', Among.append_iff, or_and_right]

/-- Nothing is wrong at a node itself. -/
theorem Accounts.innocent {reported : List Diagnostic}
    (innocent : ∀ t e, ¬Offends (⟨node, elder⟩ :: outer) t e)
    (parts : Accounts reported (⟨node, elder⟩ :: outer) [] node.children) :
    Accounts reported outer elder [node] := by
  obtain ⟨os, once, all, rfl⟩ := parts
  refine ⟨os, once, fun o => ?_, rfl⟩
  rw [all, Among.single_iff]
  constructor
  · rintro ⟨inner, offends⟩
    exact ⟨.inr inner, offends⟩
  · rintro ⟨here | inner, offends⟩
    · exact absurd (here ▸ offends) (innocent _ _)
    · exact ⟨inner, offends⟩

/-- One thing is wrong at a node itself, which is reported before what is wrong in its parts. -/
theorem Accounts.guilty {reported : List Diagnostic} {t : Token} {e : StaticError}
    (guilty : Offends (⟨node, elder⟩ :: outer) t e)
    (parts : Accounts reported (⟨node, elder⟩ :: outer) [] node.children) :
    Accounts (.static t.line (.atLexeme t.lexeme) e :: reported) outer elder [node] := by
  obtain ⟨os, once, all, rfl⟩ := parts
  refine ⟨⟨⟨node, elder⟩ :: outer, t, e⟩ :: os, ?_, fun o => ?_, rfl⟩
  · rw [List.map_cons, List.nodup_cons]
    refine ⟨fun again => ?_, once⟩
    obtain ⟨o, member, same⟩ := List.mem_map.1 again
    have longer := ((all o).1 member).1.length_lt
    rw [same] at longer
    exact Nat.lt_irrefl _ longer
  · rw [List.mem_cons, all, Among.single_iff]
    constructor
    · rintro (rfl | ⟨inner, offends⟩)
      · exact ⟨.inl rfl, guilty⟩
      · exact ⟨.inr inner, offends⟩
    · rintro ⟨here | inner, offends⟩
      · obtain ⟨spot, t', e'⟩ := o
        cases here
        obtain ⟨rfl, rfl⟩ := guilty.unique offends
        exact .inl rfl
      · exact .inr ⟨inner, offends⟩

end

end Lox
