import Lox.Proofs.Grammar.ExpressionComplete
import Lox.Proofs.Recovery.Line

/-! Expressions before the end of a line. Their rules take no semicolon, and with any bounds that are
enough for the line they do the same in both settings. The inductions are on the bound, as the rules
recur: where a repetition goes on a token was taken, so fewer are left and less bound is enough. -/
namespace Lox.Grammar

variable {s s' : Setting} {x x' : Rule Expr} {k b b' : Nat}

/-- A bound that is enough for one token more. -/
theorem bound_of_more (fits : k ≤ b) (more : k = j + 1) : ∃ d, b = d + 1 ∧ j ≤ d :=
  ⟨b - 1, by omega, by omega⟩

theorem confined_chain {level : Level} (apart : .semicolon ∉ level.operators)
    (operand : Confined s s' .inside k x x') (fits : k ≤ b) (fits' : k ≤ b') (left : Expr) :
    Confined s s' .inside k (level.chain x b left) (level.chain x' b' left) := by
  induction b generalizing k b' left with
  | zero =>
    rw [Level.chain.eq_def, Level.chain.eq_def]
    exact .accept? apart .pure fun _ j more => by omega
  | succ b ih =>
    rw [Level.chain.eq_def, Level.chain.eq_def]
    refine .accept? apart .pure fun operator j more _ _ => ?_
    obtain ⟨d, rfl, enough⟩ := bound_of_more fits' more
    have fewer : Confined s s' .inside j x x' := operand.mono (by omega)
    exact .bind fewer fun right => ih fewer (by omega) enough _

/-- A leading operator is refused once its operand is read. -/
theorem confined_refuseLeading {level : Level} (apart : .semicolon ∉ level.leading)
    (operand : Confined s s' .inside k x x') :
    Confined s s' .inside k (level.refuseLeading x) (level.refuseLeading x') := by
  refine .accept? apart .pure fun operator j more _ _ => ?_
  exact .bind (operand.mono (by omega)) fun _ => .fail rfl

theorem confined_level {level : Level} (apart : .semicolon ∉ level.operators ++ level.leading)
    (operand : Confined s s' .inside k x x') (fits : k ≤ b) (fits' : k ≤ b') :
    Confined s s' .inside k (level.rule b x) (level.rule b' x') := by
  simp only [List.mem_append, not_or] at apart
  refine .bind (confined_refuseLeading apart.2 operand) fun _ => .bind operand fun left => ?_
  exact confined_chain apart.1 operand fits fits' left

theorem confined_levels (list : List Level)
    (apart : ∀ level ∈ list, .semicolon ∉ level.operators ++ level.leading)
    (operand : Confined s s' .inside k x x') (fits : k ≤ b) (fits' : k ≤ b') :
    Confined s s' .inside k (list.foldr (Level.rule b) x) (list.foldr (Level.rule b') x') := by
  induction list with
  | nil => exact operand
  | cons level list ih =>
    simp only [List.forall_mem_cons] at apart
    exact confined_level apart.1 (ih apart.2) fits fits'

theorem confined_arguments (inner : Confined s s' .inside k x x') (fits : k ≤ b) (fits' : k ≤ b')
    (index : Nat) : Confined s s' .inside k (arguments x b index) (arguments x' b' index) := by
  induction b generalizing k b' index with
  | zero =>
    rw [arguments.eq_def, arguments.eq_def]
    exact .limited rfl (.bind inner fun _ => .accept? (by decide) .pure fun _ j more => by omega)
  | succ b ih =>
    rw [arguments.eq_def, arguments.eq_def]
    refine .limited rfl (.bind inner fun argument => .accept? (by decide) .pure fun _ j more _ _ => ?_)
    obtain ⟨d, rfl, enough⟩ := bound_of_more fits' more
    exact .bind (ih (inner.mono (by omega)) (by omega) enough _) fun _ => .pure

theorem confined_argumentList (inner : Confined s s' .inside k x x') (fits : k ≤ b) (fits' : k ≤ b') :
    Confined s s' .inside k (argumentList x b) (argumentList x' b') := by
  have closing (list : List Expr) : Confined s s' .inside k
      (do return (list, ← consume .rightParen .argumentClosing))
      (do return (list, ← consume .rightParen .argumentClosing)) :=
    .consume (by decide) fun _ _ _ _ _ => .pure
  refine .sees fun empty => ?_
  cases empty with
  | true => exact .bind .pure closing
  | false => exact .bind (confined_arguments inner fits fits' 0) closing

section

variable (inner : ∀ j, k = j + 1 → Confined s s' .inside j x x')
include inner

theorem confined_primary : Confined s s' .inside k (primary x) (primary x') := by
  refine .accept? (by decide) (.failHere rfl) fun t j more _ _ => ?_
  split
  · exact .pure
  · exact .pure
  · exact .pure
  · exact .fresh fun i => .pure
  · exact .fresh fun i => .pure
  · exact .bind (inner j more) fun _ => .consume (by decide) fun _ _ _ _ _ => .pure
  · exact .pure

theorem confined_suffixes (fits : k ≤ b) (fits' : k ≤ b') (callee : Expr) :
    Confined s s' .inside k (suffixes x b callee) (suffixes x' b' callee) := by
  induction b generalizing k b' callee with
  | zero =>
    rw [suffixes.eq_def, suffixes.eq_def]
    exact .accept? (by decide) .pure fun _ j more => by omega
  | succ b ih =>
    rw [suffixes.eq_def, suffixes.eq_def]
    refine .accept? (by decide) .pure fun t j more _ _ => ?_
    obtain ⟨d, rfl, enough⟩ := bound_of_more fits' more
    have inside := inner j more
    have later {i : Nat} (under : i ≤ j) (callee : Expr) :
        Confined s s' .inside i (suffixes x b callee) (suffixes x' d callee) :=
      ih (fun h _ => inside.mono (by omega)) (by omega) (by omega) callee
    dsimp only
    split
    · exact .bind (confined_argumentList inside (by omega) enough) fun _ => later (Nat.le_refl j) _
    · exact .consume (by decide) fun _ i _ _ _ => later (by omega) _

theorem confined_call (fits : k ≤ b) (fits' : k ≤ b') :
    Confined s s' .inside k (call x b) (call x' b') :=
  .bind (confined_primary inner) fun callee => confined_suffixes inner fits fits' callee

theorem confined_unary (fits : k ≤ b) (fits' : k ≤ b') :
    Confined s s' .inside k (unary x b) (unary x' b') := by
  induction b generalizing k b' with
  | zero =>
    rw [unary.eq_def, unary.eq_def]
    exact .accept? (by decide) (confined_call inner fits fits') fun _ j more => by omega
  | succ b ih =>
    rw [unary.eq_def, unary.eq_def]
    refine .accept? (by decide) (confined_call inner fits fits') fun operator j more _ _ => ?_
    obtain ⟨d, rfl, enough⟩ := bound_of_more fits' more
    have inside := inner j more
    exact .bind (ih (fun i _ => inside.mono (by omega)) (by omega) enough) fun _ => .pure

theorem confined_operation (fits : k ≤ b) (fits' : k ≤ b') :
    Confined s s' .inside k (operation x b) (operation x' b') :=
  confined_levels levels (by decide) (confined_unary inner fits fits') fits fits'

/-- The same target is parsed in both settings, so both can be assigned to or neither. -/
theorem confined_assignment (fits : k ≤ b) (fits' : k ≤ b') :
    Confined s s' .inside k (assignment x b) (assignment x' b') := by
  refine .bind (confined_operation inner fits fits') fun target => ?_
  refine .accept? (by decide) .pure fun equals j more _ _ => .bind (inner j more) fun value => ?_
  split
  · exact .fresh fun i => .pure
  · exact .pure
  · exact .report rfl .pure

end

theorem confined_expression (fits : k ≤ b) (fits' : k ≤ b') :
    Confined s s' .inside k (expression b) (expression b') := by
  induction b generalizing k b' with
  | zero =>
    rw [expression_eq_assignment, expression_eq_assignment]
    exact confined_assignment (fun j more => by omega) fits fits'
  | succ b ih =>
    rw [expression_eq_assignment, expression_eq_assignment]
    refine confined_assignment (fun j more => ?_) fits fits'
    obtain ⟨d, rfl, enough⟩ := bound_of_more fits' more
    exact ih (by omega) enough

end Lox.Grammar
