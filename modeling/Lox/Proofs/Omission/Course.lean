import Lox.Proofs.Omission.History
import Lox.Proofs.Omission.Merging
import Lox.Proofs.Recovery.Line
import Lox.Proofs.Grammar.StatementComplete

/-! What a rule comes to at given tokens when it may report something: it passes them, or it gives up at
the first token that does not fit. An expression that another one stands right behind is read up to the
other one, or the two are read as one. -/
namespace Lox.Grammar

/-- Something else was expected where these tokens are left. -/
def unexpected (expected : Expected) (left : List Token) (last : Token) : Diagnostic :=
  let t := left.head?.getD last
  .syntactic t.line t.place (.expected expected)

/-- From `ts` on the rule takes all but `left` and reports so much. -/
def Passes (rule : Rule α) (ts left : List Token) (n : Occurrence) (reports : List Diagnostic) : Prop :=
  ∃ a m, ∀ last errors, rule ⟨ts, last, errors, n⟩ = .ok a ⟨left, last, errors ++ reports, m⟩

/-- From `ts` on the rule takes all but `left`, reports so much, and gives up at what is left. -/
def GivesUp (rule : Rule α) (ts left : List Token) (n : Occurrence) (reports : List Diagnostic) : Prop :=
  ∃ expected m, ∀ last errors, rule ⟨ts, last, errors, n⟩ =
    .error .reported ⟨left, last, errors ++ reports ++ [unexpected expected left last], m⟩

/-- One report at most, and none that a rule gives up with. -/
structure InPassing (reports : List Diagnostic) : Prop where
  few : reports.length ≤ 1
  passed : ∀ e ∈ reports, e.unwinds = false

theorem InPassing.none : InPassing [] := ⟨Nat.zero_le _, by simp⟩

theorem Leads.passes {x : Rule α} {y : Rule α} (leads : Leads x y ts us n k)
    (later : Passes y us left k reports) : Passes x (ts ++ us) left n reports := by
  obtain ⟨a, m, ran⟩ := later
  exact ⟨a, m, fun last errors => (leads last errors).trans (ran last errors)⟩

theorem Leads.givesUp {x : Rule α} {y : Rule α} (leads : Leads x y ts us n k)
    (later : GivesUp y us left k reports) : GivesUp x (ts ++ us) left n reports := by
  obtain ⟨expected, m, ran⟩ := later
  exact ⟨expected, m, fun last errors => (leads last errors).trans (ran last errors)⟩

namespace Passes

variable {x : Rule α} {f : α → Rule β}

theorem pure : Passes (pure a) ts ts n [] := ⟨a, n, fun _ _ => by rw [List.append_nil]; rfl⟩

theorem of_reads (read : Reads x ts rest n m a) : Passes x (ts ++ rest) rest n [] := read.passes .pure

theorem bind (first : Passes x ts us n reports) (second : ∀ a k, Passes (f a) us left k others) :
    Passes (x >>= f) ts left n (reports ++ others) := by
  obtain ⟨a, k, ran⟩ := first
  obtain ⟨b, m, later⟩ := second a k
  refine ⟨b, m, fun last errors => ?_⟩
  rw [bind_apply, ran]
  dsimp only
  rw [later, List.append_assoc]

theorem bind_givesUp (first : Passes x ts us n reports)
    (second : ∀ a k, GivesUp (f a) us left k others) :
    GivesUp (x >>= f) ts left n (reports ++ others) := by
  obtain ⟨a, k, ran⟩ := first
  obtain ⟨expected, m, later⟩ := second a k
  refine ⟨expected, m, fun last errors => ?_⟩
  rw [bind_apply, ran]
  dsimp only
  rw [later, List.append_assoc errors]

theorem map {g : α → β} (passes : Passes x ts left n reports) : Passes (g <$> x) ts left n reports := by
  obtain ⟨a, m, ran⟩ := passes
  exact ⟨g a, m, fun last errors => by rw [map_apply, ran]⟩

end Passes

namespace GivesUp

variable {x : Rule α} {f : α → Rule β}

theorem bind (first : GivesUp x ts left n reports) : GivesUp (x >>= f) ts left n reports := by
  obtain ⟨expected, m, ran⟩ := first
  exact ⟨expected, m, fun last errors => by rw [bind_apply, ran]⟩

theorem map {g : α → β} (givesUp : GivesUp x ts left n reports) :
    GivesUp (g <$> x) ts left n reports := by
  obtain ⟨expected, m, ran⟩ := givesUp
  exact ⟨expected, m, fun last errors => by rw [map_apply, ran]⟩

theorem failHere {e : Expected} :
    GivesUp (do fail (← MonadState.get).peek (.expected e) : Rule α) ts ts n [] :=
  ⟨e, n, fun _ _ => by rw [List.append_nil]; rfl⟩

theorem consume {f : Token → Rule β} (stops : Stops [kind] ts) :
    GivesUp (consume kind expected >>= f) ts ts n [] := by
  refine .bind ⟨expected, n, fun last errors => ?_⟩
  rw [Grammar.consume, bind_apply]
  rcases accept?_cases [kind] ⟨ts, last, errors, n⟩ with ⟨ran, -⟩ | ⟨t, rest, tokens, member, -⟩
  · rw [ran, List.append_nil]
    rfl
  · exact absurd member (stops t (by simp [show ts = t :: rest from tokens]))

end GivesUp

/-- An assignment whose target is read, and whose value is read with so many reports. -/
theorem passes_assignment {rule : Rule Expr} (target : Reads (operation rule b) ts (equals :: us) n k e)
    (isEqual : equals.kind = .equal) (value : Passes rule us rest k reports) :
    Passes (assignment rule b) (ts ++ equals :: us) rest n (reports ++
      if e.isTarget then [] else [.syntactic equals.line equals.place .invalidTarget]) := by
  rw [assignment_eq]
  refine (Leads.bind_nil target .refl).passes ?_
  refine (Leads.present (by simp [isEqual]) .refl).passes (value.bind fun value l => ?_)
  cases isTarget : e.isTarget with
  | true =>
    obtain ⟨e', m, -, ran⟩ := settled_target isTarget equals value l
    exact ⟨e', m, fun last errors => by simp [ran]⟩
  | false =>
    rw [settled_other isTarget]
    exact ⟨e, l, fun _ _ => rfl⟩

theorem Phrase.reads_operation (phrase : Phrase (.binary .disjunction) ts n m e) (fits : ts.length ≤ b)
    (stops : Stops (Rank.binary .disjunction).continuing rest) :
    Reads (Grammar.operation (inside b) b) ts rest n m e := phrase.reads fits (Nat.le_refl b) stops

theorem stops_equal {us : List Token} (isEqual : equals.kind = .equal) (p : Precedence) :
    Stops (Rank.binary p).continuing (equals :: us) := by
  rw [stops_cons, isEqual]
  cases p <;> decide

/-- So many reports as for the last of all the expressions that are assigned one to the other. -/
theorem Phrase.passes_last {us rest : List Token} (last : ∀ ⦃ts n m e b⦄,
      Phrase (.binary .disjunction) ts n m e → ts.length + us.length ≤ b →
      ∃ reports, InPassing reports ∧ Passes (expression b) (ts ++ us ++ rest) rest n reports) :
    Phrase .assignment ts n m e → ts.length + us.length ≤ b →
    ∃ reports, InPassing reports ∧ Passes (expression b) (ts ++ us ++ rest) rest n reports
  | .assign ident isEqual value, fits => by
    simp only [List.length_cons] at fits
    obtain ⟨b, rfl⟩ : ∃ d, b = d + 1 := ⟨b - 1, by omega⟩
    obtain ⟨reports, few, passes⟩ := value.passes_last last (b := b) (by omega)
    have target := (Phrase.call (.read (n := n) ident) .done).operand
    refine ⟨reports, few, ?_⟩
    have whole := passes_assignment (target.reads_operation (b := b + 1) (by simp) (stops_equal isEqual _))
      isEqual passes
    simpa [Expr.isTarget, expression_eq_assignment] using whole
  | .set object isDot ident isEqual value, fits => by
    simp only [List.length_cons, List.length_append] at fits
    obtain ⟨b, rfl⟩ : ∃ d, b = d + 1 := ⟨b - 1, by omega⟩
    obtain ⟨reports, few, passes⟩ := value.passes_last last (b := b) (by omega)
    have target := (object.property isDot ident).operand
    refine ⟨reports, few, ?_⟩
    have whole := passes_assignment (target.reads_operation (b := b + 1) (by simp; omega)
      (stops_equal isEqual _)) isEqual passes
    simpa [Expr.isTarget, expression_eq_assignment] using whole
  | .operation inner, fits => last inner fits

/-- An expression that begins with a parenthesis or a minus sign, right behind another one, is read with
it. If it is an assignment then what it is assigned to may be no target any more. -/
theorem Phrase.passes_joined (first : Phrase .assignment ts n m e)
    (second : Phrase .assignment us k l e') (opens : Opens [.leftParen, .minus] us)
    (fits : ts.length + us.length ≤ b) (stops : Stops Rank.assignment.continuing rest) :
    ∃ reports, InPassing reports ∧ Passes (expression b) (ts ++ us ++ rest) rest n reports := by
  refine first.passes_last (fun ts n m e b operand fits => ?_) fits
  cases second with
  | assign ident =>
    obtain ⟨_, _, same, member⟩ := opens
    cases same
    simp [ident] at member
  | operation operation =>
    obtain ⟨_, _, joined⟩ := follows_operation operation opens operand n
    have read := reads_expression (.operation joined) (by simpa using fits) stops
    exact ⟨[], .none, .of_reads read⟩
  | @set os _ _ _ vs _ _ dot name equals object isDot ident isEqual value =>
    simp only [List.length_cons, List.length_append] at fits
    have target := (object.property isDot ident).operand
    have opens : Opens [.leftParen, .minus] (os ++ [dot, name]) :=
      (opens.first object.opens.length_pos).append
    obtain ⟨j, o, joined⟩ := follows_operation target opens operand n
    obtain ⟨d, rfl⟩ : ∃ d, b = d + 1 := ⟨b - 1, by omega⟩
    obtain ⟨_, _, value⟩ := value.readable j
    have passes := Passes.of_reads (reads_expression (b := d) value (by omega) stops)
    have whole := passes_assignment (joined.reads_operation (b := d + 1) (by simp; omega)
      (stops_equal isEqual _)) isEqual passes
    refine ⟨_, ?_, by simpa [expression_eq_assignment] using whole⟩
    cases o.isTarget with
    | true => exact .none
    | false => exact ⟨Nat.le_refl 1, by simp [Diagnostic.unwinds, SyntaxError.unwinds]⟩

end Lox.Grammar
