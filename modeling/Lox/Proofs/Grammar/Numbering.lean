import Lox.Proofs.Grammar.Placement

/-! Each occurrence in a derived tree has an identity of its own, between the first one that was free
before the tree and the first one that is free behind it. Resolution meets each occurrence once. -/
namespace Lox

/-- The occurrences of which something was found. -/
def occurrences (findings : List Finding) : List Nat :=
  (findings.filterMap Finding.reference?).map (·.1)

theorem occurrences_append (a b : List Finding) :
    occurrences (a ++ b) = occurrences a ++ occurrences b := by
  simp [occurrences]

/-- Each finding is about an occurrence of its own, and all of these are in the range. -/
structure Numbered (first next : Nat) (findings : List Finding) : Prop where
  ordered : first ≤ next
  nodup : (occurrences findings).Nodup
  within : ∀ id ∈ occurrences findings, first ≤ id ∧ id < next

namespace Numbered

variable {n k m : Nat} {a b : List Finding}

theorem nil (ordered : n ≤ m) : Numbered n m [] := ⟨ordered, by simp [occurrences], by simp [occurrences]⟩

theorem widen (lower : n ≤ k) (numbered : Numbered k m a) : Numbered n m a :=
  ⟨Nat.le_trans lower numbered.ordered, numbered.nodup, fun i member =>
    ⟨Nat.le_trans lower (numbered.within i member).1, (numbered.within i member).2⟩⟩

theorem append (left : Numbered n k a) (right : Numbered k m b) : Numbered n m (a ++ b) := by
  refine ⟨Nat.le_trans left.ordered right.ordered, ?_, ?_⟩
  · rw [occurrences_append]
    refine List.nodup_append.2 ⟨left.nodup, right.nodup, ?_⟩
    rintro i inLeft j inRight rfl
    have := left.within i inLeft
    have := right.within i inRight
    omega
  · intro id member
    rw [occurrences_append, List.mem_append] at member
    have := left.ordered
    have := right.ordered
    rcases member with inLeft | inRight
    · have := left.within id inLeft
      omega
    · have := right.within id inRight
      omega

/-- What is numbered later may be found first. -/
theorem append_swap (left : Numbered n k a) (right : Numbered k m b) : Numbered n m (b ++ a) := by
  have both := left.append right
  have same : (occurrences (b ++ a)).Perm (occurrences (a ++ b)) := by
    simp only [occurrences, List.filterMap_append, List.map_append]
    exact List.perm_append_comm
  exact ⟨both.ordered, same.nodup_iff.2 both.nodup, fun id member =>
    both.within id (same.mem_iff.1 member)⟩

theorem reference (here : Surroundings) (name : Token) :
    Numbered n (n + 1) [here.referring n name] :=
  ⟨Nat.le_succ n, by simp [occurrences, Surroundings.referring, Finding.reference?], by
    simp [occurrences, Surroundings.referring, Finding.reference?]⟩

/-- Errors are about no occurrence. -/
theorem of_errors (ordered : n ≤ m) (errors : ∀ f ∈ a, f.reference? = none) : Numbered n m a := by
  have none : occurrences a = [] := by
    simpa [occurrences] using errors
  exact ⟨ordered, by simp [none], by simp [none]⟩

theorem errors_append (errors : ∀ f ∈ a, f.reference? = none) (rest : Numbered n m b) :
    Numbered n m (a ++ b) := (of_errors (Nat.le_refl n) errors).append rest

end Numbered

theorem Surroundings.redeclaring_errors (here : Surroundings) (name : Token) :
    ∀ f ∈ here.redeclaring name, f.reference? = none := by
  intro f member
  rw [Surroundings.redeclaring] at member
  split at member
  · obtain rfl := List.mem_singleton.1 member
    rfl
  · cases member

theorem Surroundings.redeclaringEach_errors (here : Surroundings) (names : List Token) :
    ∀ f ∈ here.redeclaringEach names, f.reference? = none := by
  induction names generalizing here with
  | nil => simp [Surroundings.redeclaringEach]
  | cons name rest ih =>
    intro f member
    rcases List.mem_append.1 member with first | later
    · exact here.redeclaring_errors name f first
    · exact ih _ f later

theorem Surroundings.returning_errors (here : Surroundings) (keyword : Token) :
    ∀ f ∈ here.returning keyword, f.reference? = none := by
  intro f member
  rw [Surroundings.returning] at member
  split at member
  · cases member
  · obtain rfl := List.mem_singleton.1 member
    rfl

namespace Grammar

theorem Precedence.node_findings (p : Precedence) (left : Expr) (operator : Token) (right : Expr)
    (here : Surroundings) :
    (p.node left operator right).findings here = left.findings here ++ right.findings here := by
  cases p <;> simp [Precedence.node, Expr.findings]

mutual

theorem Phrase.numbered (here : Surroundings) : Phrase r ts n m e → Numbered n m (e.findings here)
  | .assign _ _ value => by
    rw [Expr.findings]
    have found := value.numbered here
    exact (found.widen (Nat.le_succ _)).append (.reference here _)
  | .set object _ _ _ value => by
    rw [Expr.findings]
    exact (object.numbered here).append_swap (value.numbered here)
  | .operation inner | .plain inner => inner.numbered here
  | .binary operand operations => operations.numbered here (operand.numbered here)
  | .unary _ operand => by
    rw [Expr.findings]
    exact operand.numbered here
  | .call callee suffixes => suffixes.numbered here (callee.numbered here)
  | .constant _ | .literal _ => by
    rw [Expr.findings]
    exact .nil (Nat.le_refl _)
  | .this _ => by
    rw [Expr.findings]
    split
    · exact .reference here _
    · exact .of_errors (Nat.le_succ _) (by simp [Finding.refused, Finding.reference?])
  | .read _ => by
    rw [Expr.findings]
    refine .errors_append ?_ (.reference here _)
    intro f member
    split at member
    · obtain rfl := List.mem_singleton.1 member
      rfl
    · cases member
  | .group _ inner _ => by
    rw [Expr.findings]
    exact inner.numbered here

theorem Operations.numbered (here : Surroundings) : Operations p left ts k m e →
    Numbered n k (left.findings here) → Numbered n m (e.findings here)
  | .done, found => found
  | .more _ operand operations, found => by
    refine operations.numbered here ?_
    rw [p.node_findings]
    exact found.append (operand.numbered here)

theorem Suffixes.numbered (here : Surroundings) : Suffixes callee ts k m e →
    Numbered n k (callee.findings here) → Numbered n m (e.findings here)
  | .done, found => found
  | .call _ list _ _ suffixes, found => by
    refine suffixes.numbered here ?_
    rw [Expr.findings]
    exact found.append (list.numbered here)
  | .get _ _ suffixes, found => by
    refine suffixes.numbered here ?_
    rw [Expr.findings]
    exact found

theorem Arguments.numbered (here : Surroundings) : Arguments ts n m list →
    Numbered n m (Expr.allFindings here list)
  | .none => by
    rw [Expr.allFindings]
    exact .nil (Nat.le_refl _)
  | .some list => list.numbered here

theorem ArgumentList.numbered (here : Surroundings) : ArgumentList ts n m list →
    Numbered n m (Expr.allFindings here list)
  | .one e => by
    rw [Expr.allFindings, Expr.allFindings, List.append_nil]
    exact e.numbered here
  | .more e _ list => by
    rw [Expr.allFindings]
    exact (e.numbered here).append (list.numbered here)

end

theorem OptionalPhrase.numbered (here : Surroundings) : OptionalPhrase ts n m r →
    Numbered n m ((r.map (·.findings here)).getD [])
  | .none => .nil (Nat.le_refl _)
  | .some phrase => phrase.numbered here

theorem Variable.numbered (here : Surroundings) : Variable ts n m s → Numbered n m (s.findings here)
  | .bare _ _ => by
    rw [Stmt.findings]
    exact .of_errors (Nat.le_refl _) (here.redeclaring_errors _)
  | .initialized _ _ phrase _ => by
    rw [Stmt.findings]
    exact .errors_append (here.redeclaring_errors _) (phrase.numbered _)

theorem Initializer.numbered (here : Surroundings) : Initializer ts n m r →
    Numbered n m ((r.map (·.findings here)).getD [])
  | .none _ => .nil (Nat.le_refl _)
  | .variable _ read => read.numbered here
  | .expression phrase _ => by
    simp only [Option.map_some, Option.getD_some, Stmt.findings]
    exact phrase.numbered here

/-- The parts of a `for` are found in another order than they are numbered in. -/
theorem whileForm_numbered {initializer : Option Stmt} {condition increment : Option Expr}
    {body : Stmt} (begins : ∀ here, Numbered n k ((initializer.map (·.findings here)).getD []))
    (checks : ∀ here, Numbered k l ((condition.map (·.findings here)).getD []))
    (steps : ∀ here, Numbered l j ((increment.map (·.findings here)).getD []))
    (repeats : ∀ here, Numbered j m (body.findings here)) (here : Surroundings) :
    Numbered n m ((whileForm condition body initializer increment).findings here) := by
  have condition' (here : Surroundings) :
      Numbered k l ((condition.getD (.constant (.boolean true))).findings here) := by
    cases condition with
    | none => simpa [Expr.findings] using checks here
    | some condition => exact checks here
  have loop (here : Surroundings) : Numbered k m ((whileForm condition body none increment).findings
      here) := by
    cases increment with
    | none =>
      rw [whileForm, Stmt.findings]
      simpa using ((condition' here).append (steps here)).append (repeats here)
    | some increment =>
      rw [whileForm, Stmt.findings, Stmt.findings]
      refine (condition' here).append ?_
      simp only [Stmt.allFindings, Stmt.findings, List.append_nil]
      exact (steps _).append_swap (repeats _)
  cases initializer with
  | none => simpa using (begins here).append (loop here)
  | some initializer =>
    have form : whileForm condition body (some initializer) increment =
        .block [initializer, whileForm condition body none increment] := by
      cases increment <;> rfl
    rw [form, Stmt.findings]
    simp only [Stmt.allFindings, List.append_nil]
    exact (begins _).append (loop _)

mutual

theorem Statement.numbered (here : Surroundings) : Statement elses isOpen ts n m s →
    Numbered n m (s.findings here)
  | .expression phrase _ | .print _ phrase _ => by
    rw [Stmt.findings]
    exact phrase.numbered here
  | .ret _ value _ => by
    cases value with
    | none =>
      rw [Stmt.findings]
      exact .of_errors (Nat.le_refl _) (here.returning_errors _)
    | some phrase =>
      rw [Stmt.findings]
      exact .errors_append (here.returning_errors _) (phrase.numbered here)
  | .block _ body _ => by
    rw [Stmt.findings]
    exact body.numbered _
  | .loop _ _ condition _ body => by
    rw [Stmt.findings]
    exact (condition.numbered here).append (body.numbered here)
  | .forLoop _ _ initializer condition _ increment _ body =>
    whileForm_numbered initializer.numbered condition.numbered increment.numbered
      (fun here => body.numbered here) here
  | .branch _ _ condition _ consequent => by
    rw [Stmt.findings]
    exact (condition.numbered here).append (consequent.numbered here)
  | .branchElse _ _ condition _ consequent _ _ alternative => by
    rw [Stmt.findings]
    exact ((condition.numbered here).append (consequent.numbered here)).append
      (alternative.numbered _)

theorem Declaration.numbered (here : Surroundings) : Declaration elses ts n m s →
    Numbered n m (s.findings here)
  | .classDecl _ _ _ list _ => by
    rw [Stmt.findings]
    exact .errors_append (here.redeclaring_errors _) (list.numbered _)
  | .function _ read => by
    rw [Stmt.findings]
    exact .errors_append (here.redeclaring_errors _) (read.numbered _)
  | .variable _ read => read.numbered here
  | .statement inner => inner.numbered here

theorem Declarations.numbered (here : Surroundings) : Declarations elses ts n m list →
    Numbered n m (Stmt.allFindings here list)
  | .nil => by
    rw [Stmt.allFindings]
    exact .nil (Nat.le_refl _)
  | .cons first later => by
    rw [Stmt.allFindings]
    exact (first.numbered here).append (later.numbered _)

theorem Function.numbered (here : Surroundings) : Function elses ts n m f →
    Numbered n m (f.findings here)
  | .intro _ _ _ _ _ _ body _ => by
    rw [FunctionDecl.findings]
    exact .errors_append (Surroundings.redeclaringEach_errors _ _) (body.numbered _)

theorem Functions.numbered (here : Surroundings) : Functions elses ts n m list →
    Numbered n m (FunctionDecl.allFindings here list)
  | .nil => by
    rw [FunctionDecl.allFindings]
    exact .nil (Nat.le_refl _)
  | .cons first later => by
    rw [FunctionDecl.allFindings]
    exact (first.numbered here).append (later.numbered here)

end

end Grammar

end Lox
