import Lox.Proofs.Recovery.Expression
import Lox.Proofs.Buffer.Tracking

/-! Expressions in a buffer. With any bounds that are enough for the tokens left, the rules of both readers
do the same. The inductions are on the bound of the list's reader, as its rules recur; where a repetition
goes on a token was taken, so fewer are left for both. -/
namespace Lox.Buffer

open Grammar (Rule Level levels bound_of_more)

variable {l : Layout} {x : Rule Expr} {y : Reading Expr} {k b b' : Nat}

theorem tracks_chain {level : Level} (operand : Tracks l false k x y) (fits : k ≤ b) (fits' : k ≤ b')
    (left : Expr) : Tracks l false k (level.chain x b left) (chain level y b' left) := by
  induction b generalizing k b' left with
  | zero =>
    rw [Level.chain.eq_def, chain.eq_def]
    exact .accept? .pure fun _ j more => by omega
  | succ b ih =>
    rw [Level.chain.eq_def, chain.eq_def]
    refine .accept? .pure fun operator j more _ => ?_
    obtain ⟨d, rfl, enough⟩ := bound_of_more fits' more
    have fewer : Tracks l false j x y := operand.mono (by omega)
    exact .bind fewer fun right => ih fewer (by omega) enough _

/-- A leading operator is refused once its operand is read. -/
theorem tracks_refuseLeading {level : Level} (operand : Tracks l false k x y) :
    Tracks l false k (level.refuseLeading x) (refuseLeading level y) := by
  refine .accept? .pure fun operator j more _ => ?_
  exact .bind (operand.mono (by omega)) fun _ => .fail

theorem tracks_levels (list : List Level) (operand : Tracks l false k x y) (fits : k ≤ b)
    (fits' : k ≤ b') :
    Tracks l false k (list.foldr (Level.rule b) x) (list.foldr (binary b') y) := by
  induction list with
  | nil => exact operand
  | cons level list ih =>
    refine .bind (tracks_refuseLeading ih) fun _ => .bind ih fun left => ?_
    exact tracks_chain ih fits fits' left

theorem tracks_arguments (inner : Tracks l false k x y) (fits : k ≤ b) (fits' : k ≤ b') (index : Nat) :
    Tracks l false k (Grammar.arguments x b index) (arguments y b' index) := by
  induction b generalizing k b' index with
  | zero =>
    rw [Grammar.arguments.eq_def, arguments.eq_def]
    exact .limited (.bind inner fun _ => .accept? .pure fun _ j more => by omega)
  | succ b ih =>
    rw [Grammar.arguments.eq_def, arguments.eq_def]
    refine .limited (.bind inner fun argument => .accept? .pure fun _ j more _ => ?_)
    obtain ⟨d, rfl, enough⟩ := bound_of_more fits' more
    exact .bind (ih (inner.mono (by omega)) (by omega) enough _) fun _ => .pure

theorem tracks_argumentList (inner : Tracks l false k x y) (fits : k ≤ b) (fits' : k ≤ b') :
    Tracks l false k (Grammar.argumentList x b) (argumentList y b') := by
  have closing (list : List Expr) : Tracks l false k
      (do return (list, ← Grammar.consume .rightParen .argumentClosing))
      (do return (list, ← consume .rightParen .argumentClosing)) :=
    .consume fun _ _ _ _ => .pure
  refine .sees fun empty => ?_
  cases empty with
  | true => exact .bind .pure closing
  | false => exact .bind (tracks_arguments inner fits fits' 0) closing

section

variable (inner : ∀ j, k = j + 1 → Tracks l false j x y)
include inner

theorem tracks_primary : Tracks l false k (Grammar.primary x) (primary y) := by
  refine .accept? .failHere fun t j more member => ?_
  simp only [Grammar.primaryKinds, List.mem_cons, List.not_mem_nil, or_false] at member
  rcases member with kind | kind | kind | kind | kind | kind | kind | kind <;> simp only [kind]
  · exact .pure
  · exact .pure
  · exact .pure
  · exact .pure
  · exact .pure
  · exact .fresh fun i => .pure
  · exact .fresh fun i => .pure
  · exact .bind (inner j more) fun _ => .consume fun _ _ _ _ => .pure

theorem tracks_suffixes (fits : k ≤ b) (fits' : k ≤ b') (callee : Expr) :
    Tracks l false k (Grammar.suffixes x b callee) (suffixes y b' callee) := by
  induction b generalizing k b' callee with
  | zero =>
    rw [Grammar.suffixes.eq_def, suffixes.eq_def]
    exact .accept? .pure fun _ j more => by omega
  | succ b ih =>
    rw [Grammar.suffixes.eq_def, suffixes.eq_def]
    refine .accept? .pure fun t j more _ => ?_
    obtain ⟨d, rfl, enough⟩ := bound_of_more fits' more
    have inside := inner j more
    have later {i : Nat} (under : i ≤ j) (callee : Expr) :
        Tracks l false i (Grammar.suffixes x b callee) (suffixes y d callee) :=
      ih (fun h _ => inside.mono (by omega)) (by omega) (by omega) callee
    dsimp only
    split
    · exact .bind (tracks_argumentList inside (by omega) enough) fun _ => later (Nat.le_refl j) _
    · exact .consume fun _ i _ _ => later (by omega) _

theorem tracks_call (fits : k ≤ b) (fits' : k ≤ b') :
    Tracks l false k (Grammar.call x b) (call y b') :=
  .bind (tracks_primary inner) fun callee => tracks_suffixes inner fits fits' callee

theorem tracks_unary (fits : k ≤ b) (fits' : k ≤ b') :
    Tracks l false k (Grammar.unary x b) (unary y b') := by
  induction b generalizing k b' with
  | zero =>
    rw [Grammar.unary.eq_def, unary.eq_def]
    exact .accept? (tracks_call inner fits fits') fun _ j more => by omega
  | succ b ih =>
    rw [Grammar.unary.eq_def, unary.eq_def]
    refine .accept? (tracks_call inner fits fits') fun operator j more _ => ?_
    obtain ⟨d, rfl, enough⟩ := bound_of_more fits' more
    have inside := inner j more
    exact .bind (ih (fun i _ => inside.mono (by omega)) (by omega) enough) fun _ => .pure

theorem tracks_operation (fits : k ≤ b) (fits' : k ≤ b') :
    Tracks l false k (Grammar.operation x b) (operation y b') :=
  tracks_levels levels (tracks_unary inner fits fits') fits fits'

theorem tracks_assignment (fits : k ≤ b) (fits' : k ≤ b') :
    Tracks l false k (Grammar.assignment x b) (assignment y b') := by
  refine .bind (tracks_operation inner fits fits') fun target => ?_
  refine .accept? .pure fun equals j more _ => .bind (inner j more) fun value => ?_
  cases target with
  | read => exact .fresh fun i => .pure
  | get => exact .pure
  | _ => exact .report .pure

end

theorem tracks_expression (fits : k ≤ b) (fits' : k ≤ b') :
    Tracks l false k (Grammar.expression b) (expression b') := by
  induction b generalizing k b' with
  | zero =>
    cases b' <;> exact tracks_assignment (fun j more => by omega) fits fits'
  | succ b ih =>
    cases b' with
    | zero => exact tracks_assignment (fun j more => by omega) fits fits'
    | succ b' => exact tracks_assignment (fun j more => ih (by omega) (by omega)) fits fits'

end Lox.Buffer
