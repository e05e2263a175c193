import Lox.Proofs.Grammar.Numbering
import Lox.Proofs.Grammar.Shape
import Lox.Proofs.Grammar.StatementSound

/-! The identities in a tree, those of all nodes that name a variable. Inside of a class resolution finds
something of each such node, so what is said of the numbers of findings holds of the identities of a
tree, wherever it stands. -/
namespace Lox

mutual

/-- The identities in the order of resolution. -/
def Expr.ids : Expr → List Occurrence
  | .constant _ => []
  | .group part | .unary _ part | .get part _ => part.ids
  | .binary left _ right | .logical left _ right => left.ids ++ right.ids
  | .read id _ | .this id _ => [id]
  | .assign id _ value => value.ids ++ [id]
  | .call callee _ arguments => callee.ids ++ Expr.allIds arguments
  | .set object _ value => value.ids ++ object.ids

def Expr.allIds : List Expr → List Occurrence
  | [] => []
  | e :: rest => e.ids ++ Expr.allIds rest

end

mutual

def Stmt.ids : Stmt → List Occurrence
  | .expression value | .print value => value.ids
  | .var _ initializer => (initializer.map Expr.ids).getD []
  | .block body => Stmt.allIds body
  | .branch condition consequent none => condition.ids ++ consequent.ids
  | .branch condition consequent (some alternative) =>
    condition.ids ++ consequent.ids ++ alternative.ids
  | .loop condition body => condition.ids ++ body.ids
  | .function declaration => declaration.ids
  | .ret _ value => (value.map Expr.ids).getD []
  | .classDecl _ methods => FunctionDecl.allIds methods

def Stmt.allIds : List Stmt → List Occurrence
  | [] => []
  | s :: rest => s.ids ++ Stmt.allIds rest

def FunctionDecl.ids : FunctionDecl → List Occurrence
  | ⟨_, _, body⟩ => Stmt.allIds body

def FunctionDecl.allIds : List FunctionDecl → List Occurrence
  | [] => []
  | f :: rest => f.ids ++ FunctionDecl.allIds rest

end

theorem occurrences_of_errors {findings : List Finding} (errors : ∀ f ∈ findings, f.reference? = none) :
    occurrences findings = [] := by
  simpa [occurrences] using errors

@[simp] theorem occurrences_referring (here : Surroundings) (id : Occurrence) (name : Token) :
    occurrences [here.referring id name] = [id] := rfl

namespace Surroundings

@[simp] theorem inClass_define (here : Surroundings) (name : Token) :
    (here.define name).inClass = here.inClass := here.inClass_hold name .ready

@[simp] theorem inClass_declare (here : Surroundings) (name : Token) :
    (here.declare name).inClass = here.inClass := by
  rw [declare]
  split
  · rfl
  · exact here.inClass_hold name .pending

@[simp] theorem inClass_after (here : Surroundings) (s : Stmt) :
    (here.after s).inClass = here.inClass := by
  fun_induction after here s <;> simp_all

@[simp] theorem inClass_inBody (here : Surroundings) (parameters : List Token) :
    (here.inBody parameters).inClass = here.inClass := by
  have each (names : List Token) (there : Surroundings) :
      (names.foldl define there).inClass = there.inClass := by
    induction names generalizing there with
    | nil => rfl
    | cons name rest ih => rw [List.foldl_cons, ih, inClass_define]
  exact each parameters _

end Surroundings

mutual

theorem Expr.occurrences_findings {here : Surroundings} (inside : here.inClass = true) :
    (e : Expr) → occurrences (e.findings here) = e.ids
  | .constant _ => by rw [Expr.findings, Expr.ids]; rfl
  | .group part | .unary _ part | .get part _ => by
    rw [Expr.findings, Expr.ids, part.occurrences_findings inside]
  | .binary left _ right | .logical left _ right => by
    rw [Expr.findings, Expr.ids, occurrences_append, left.occurrences_findings inside,
      right.occurrences_findings inside]
  | .read id name => by
    have quiet : occurrences (if here.isPending name then [.refused name .ownInitializer] else []) = [] := by
      split <;> rfl
    rw [Expr.findings, Expr.ids, occurrences_append, quiet, occurrences_referring, List.nil_append]
  | .assign id name value => by
    rw [Expr.findings, Expr.ids, occurrences_append, value.occurrences_findings inside,
      occurrences_referring]
  | .call callee _ arguments => by
    rw [Expr.findings, Expr.ids, occurrences_append, callee.occurrences_findings inside,
      Expr.occurrences_allFindings inside arguments]
  | .set object _ value => by
    rw [Expr.findings, Expr.ids, occurrences_append, value.occurrences_findings inside,
      object.occurrences_findings inside]
  | .this id keyword => by
    rw [Expr.findings, Expr.ids, if_pos inside, occurrences_referring]

theorem Expr.occurrences_allFindings {here : Surroundings} (inside : here.inClass = true) :
    (list : List Expr) → occurrences (Expr.allFindings here list) = Expr.allIds list
  | [] => by rw [Expr.allFindings, Expr.allIds]; rfl
  | e :: rest => by
    rw [Expr.allFindings, Expr.allIds, occurrences_append, e.occurrences_findings inside,
      Expr.occurrences_allFindings inside rest]

end

mutual

theorem Stmt.occurrences_findings {here : Surroundings} (inside : here.inClass = true) :
    (s : Stmt) → occurrences (s.findings here) = s.ids
  | .expression value | .print value => by
    rw [Stmt.findings, Stmt.ids, value.occurrences_findings inside]
  | .var name none => by
    rw [Stmt.findings, Stmt.ids, occurrences_of_errors (here.redeclaring_errors name)]
    rfl
  | .var name (some initializer) => by
    rw [Stmt.findings, Stmt.ids, occurrences_append,
      occurrences_of_errors (here.redeclaring_errors name),
      initializer.occurrences_findings ((here.inClass_declare name).trans inside)]
    rfl
  | .block body => by
    have entered : (here.enter []).inClass = true := inside
    rw [Stmt.findings, Stmt.ids, Stmt.occurrences_allFindings entered body]
  | .branch condition consequent none | .loop condition consequent => by
    rw [Stmt.findings, Stmt.ids, occurrences_append, condition.occurrences_findings inside,
      Stmt.occurrences_findings inside consequent]
  | .branch condition consequent (some alternative) => by
    rw [Stmt.findings, Stmt.ids, occurrences_append, occurrences_append,
      condition.occurrences_findings inside, Stmt.occurrences_findings inside consequent,
      Stmt.occurrences_findings ((here.inClass_after consequent).trans inside) alternative]
  | .function declaration => by
    rw [Stmt.findings, Stmt.ids, occurrences_append,
      occurrences_of_errors (here.redeclaring_errors _),
      FunctionDecl.occurrences_findings ((here.inClass_define _).trans inside) declaration]
    rfl
  | .ret keyword none => by
    rw [Stmt.findings, Stmt.ids, occurrences_of_errors (here.returning_errors keyword)]
    rfl
  | .ret keyword (some value) => by
    rw [Stmt.findings, Stmt.ids, occurrences_append,
      occurrences_of_errors (here.returning_errors keyword), value.occurrences_findings inside]
    rfl
  | .classDecl name methods => by
    have entered : (here.define name).inMethods.inClass = true := rfl
    rw [Stmt.findings, Stmt.ids, occurrences_append,
      occurrences_of_errors (here.redeclaring_errors name),
      FunctionDecl.occurrences_allFindings entered methods]
    rfl

theorem Stmt.occurrences_allFindings {here : Surroundings} (inside : here.inClass = true) :
    (list : List Stmt) → occurrences (Stmt.allFindings here list) = Stmt.allIds list
  | [] => by rw [Stmt.allFindings, Stmt.allIds]; rfl
  | s :: rest => by
    rw [Stmt.allFindings, Stmt.allIds, occurrences_append, Stmt.occurrences_findings inside s,
      Stmt.occurrences_allFindings ((here.inClass_after s).trans inside) rest]

theorem FunctionDecl.occurrences_findings {here : Surroundings} (inside : here.inClass = true) :
    (f : FunctionDecl) → occurrences (f.findings here) = f.ids
  | ⟨_, parameters, body⟩ => by
    rw [FunctionDecl.findings, FunctionDecl.ids, occurrences_append,
      occurrences_of_errors (Surroundings.redeclaringEach_errors _ _),
      Stmt.occurrences_allFindings ((here.inClass_inBody parameters).trans inside) body]
    rfl

theorem FunctionDecl.occurrences_allFindings {here : Surroundings} (inside : here.inClass = true) :
    (list : List FunctionDecl) →
      occurrences (FunctionDecl.allFindings here list) = FunctionDecl.allIds list
  | [] => by rw [FunctionDecl.allFindings, FunctionDecl.allIds]; rfl
  | f :: rest => by
    rw [FunctionDecl.allFindings, FunctionDecl.allIds, occurrences_append,
      FunctionDecl.occurrences_findings inside f, FunctionDecl.occurrences_allFindings inside rest]

end

/-- No two nodes of a tree that is read have one identity, and all of these are new. -/
theorem Grammar.Declarations.ids_distinct {elses : Attachment} {ts : List Token} {first next : Nat}
    {list : List Stmt} (derived : Declarations elses ts first next list) :
    (Stmt.allIds list).Nodup ∧ ∀ id ∈ Stmt.allIds list, first ≤ id ∧ id < next := by
  let inside : Surroundings := { Surroundings.topLevel with inClass := true }
  have numbered := derived.numbered inside
  have same : occurrences (Stmt.allFindings inside list) = Stmt.allIds list :=
    Stmt.occurrences_allFindings rfl list
  exact same ▸ ⟨numbered.nodup, numbered.within⟩

/-- The trees of token lists that are read one after the other. Those that are refused use up identities,
but have no tree. -/
def parseEach : List (List Token) → Occurrence → List (List Stmt)
  | [], _ => []
  | tokens :: rest, fresh =>
    match parse tokens fresh with
    | (.ok program, next) => program :: parseEach rest next
    | (.error _, next) => parseEach rest next

/-- Whatever the tokens are, a tree that is read is well formed, in the bodies of functions too. -/
theorem parse_shaped {tokens : List Token} {fresh next : Occurrence} {program : List Stmt}
    (parsed : parse tokens fresh = (.ok program, next)) :
    Stmt.AllShaped (fun _ => True) program ∧ (Stmt.allIds program).Nodup ∧
      ∀ id ∈ Stmt.allIds program, fresh ≤ id ∧ id < next :=
  have derived := Grammar.parse_derived parsed
  ⟨derived.shaped fun _ _ => trivial, derived.ids_distinct⟩

theorem parseEach_within (lists : List (List Token)) (fresh : Occurrence) :
    ∀ program ∈ parseEach lists fresh, ∀ id ∈ Stmt.allIds program, fresh ≤ id := by
  induction lists generalizing fresh with
  | nil => simp [parseEach]
  | cons tokens rest ih =>
    have advanced := Grammar.parse_fresh_le tokens fresh
    rw [parseEach]
    cases parsed : parse tokens fresh with
    | mk result next =>
      rw [parsed] at advanced
      have later : ∀ program ∈ parseEach rest next, ∀ id ∈ Stmt.allIds program, fresh ≤ id :=
        fun program member id among => Nat.le_trans advanced (ih next program member id among)
      cases result with
      | error errors => exact later
      | ok program =>
        exact List.forall_mem_cons.2 ⟨fun id among => ((parse_shaped parsed).2.2 id among).1, later⟩

/-- No identity is in two trees, or twice in one. -/
theorem parseEach_distinct (lists : List (List Token)) (fresh : Occurrence) :
    (∀ program ∈ parseEach lists fresh, Stmt.AllShaped (fun _ => True) program) ∧
      ((parseEach lists fresh).flatMap Stmt.allIds).Nodup := by
  induction lists generalizing fresh with
  | nil => simp [parseEach]
  | cons tokens rest ih =>
    rw [parseEach]
    cases parsed : parse tokens fresh with
    | mk result next =>
      cases result with
      | error errors => exact ih next
      | ok program =>
        obtain ⟨shaped, distinct, within⟩ := parse_shaped parsed
        obtain ⟨shaped', distinct'⟩ := ih next
        refine ⟨List.forall_mem_cons.2 ⟨shaped, shaped'⟩, ?_⟩
        simp only [List.flatMap_cons]
        refine List.nodup_append.2 ⟨distinct, distinct', ?_⟩
        rintro id here other there rfl
        obtain ⟨later, member, among⟩ := List.mem_flatMap.1 there
        exact Nat.lt_irrefl _ (Nat.lt_of_lt_of_le (within id here).2
          (parseEach_within rest next later member id among))

end Lox
