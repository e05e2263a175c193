import Lox.Proofs.Omission.Course
import Lox.Proofs.Omission.Site

/-! What comes of a statement without one of its semicolons. What stood behind the semicolon is read with
what stood before it, or it is refused. -/
namespace Lox.Grammar

/-- The kinds of tokens that stand at the beginning of an expression or right behind one that goes on. -/
def phraseKinds : List TokenKind := Rank.assignment.opening ++ Rank.assignment.continuing

/-- Where no expression begins none is read. -/
theorem givesUp_expression (stops : Stops phraseKinds ts) : GivesUp (expression b) ts ts n [] := by
  have primary : GivesUp (primary (inside b)) ts ts n [] := by
    have absent : Leads (Grammar.primary (inside b))
        (do fail (← MonadState.get).peek (.expected .expression)) [] ts n n :=
      .absent (stops.mono (by decide)) .refl
    exact absent.givesUp .failHere
  have unary : GivesUp (unary (inside b) b) ts ts n [] := by
    have absent : Leads (Grammar.unary (inside b) b) (Grammar.call (inside b) b) [] ts n n := by
      rw [Grammar.unary.eq_def]
      exact .absent (stops.mono (by decide)) .refl
    exact absent.givesUp (.bind primary)
  have operation (list : List Level) (few : ∀ level ∈ list, ∀ kind ∈ level.leading, kind ∈ phraseKinds) :
      GivesUp (list.foldr (Level.rule b) (Grammar.unary (inside b) b)) ts ts n [] := by
    induction list with
    | nil => exact unary
    | cons level list ih =>
      simp only [List.forall_mem_cons] at few
      let operand := list.foldr (Level.rule b) (Grammar.unary (inside b) b)
      have none : Reads (level.refuseLeading operand) [] ts n n () := .absent (stops.mono few.1) .refl
      have skipped : Leads (level.rule b operand) (operand >>= level.chain operand b) [] ts n n :=
        .bind_nil none .refl
      exact skipped.givesUp (.bind (ih few.2))
  rw [expression_eq_assignment]
  exact .bind (operation levels (by simp [levels]; decide))

/-- What comes of a rule for `ts` when `us` may be an expression and stands right behind: the rule stops
before `us` or takes it too, or there is nothing to read. -/
inductive Meets (rule : Rule α) (ts us tail : List Token) (n : Occurrence) : Prop where
  | before : Opens Rank.assignment.opening us → Passes rule (ts ++ (us ++ tail)) (us ++ tail) n [] →
      Meets rule ts us tail n
  | across : InPassing reports → Passes rule (ts ++ (us ++ tail)) tail n reports →
      Meets rule ts us tail n
  | nowhere : us = [] → Stops [.semicolon] tail → GivesUp rule (ts ++ (us ++ tail)) tail n [] →
      Meets rule ts us tail n

namespace Meets

variable {x : Rule α} {g : α → Token → Rule β}

theorem map {g : α → β} (meets : Meets x ts us tail n) : Meets (g <$> x) ts us tail n := by
  cases meets with
  | before opens passes => exact .before opens passes.map
  | across few passes => exact .across few passes.map
  | nowhere none stops givesUp => exact .nowhere none stops givesUp.map

theorem leads {y : Rule α} (leads : Leads x y vs (ts ++ (us ++ tail)) n k)
    (meets : Meets y ts us tail k) : Meets x (vs ++ ts) us tail n := by
  cases meets with
  | before opens passes => exact .before opens (by simpa using leads.passes passes)
  | across few passes => exact .across few (by simpa using leads.passes passes)
  | nowhere none stops givesUp => exact .nowhere none stops (by simpa using leads.givesUp givesUp)

/-- Where no semicolon follows the rule that asks for one gives up, before `us` or behind it. -/
theorem givesUp (meets : Meets x ts us tail n) (stops : Stops [.semicolon] tail) :
    ∃ left reports, InPassing reports ∧ (left = us ++ tail ∨ left = tail) ∧
      GivesUp (x >>= fun a => consume .semicolon expected >>= g a) (ts ++ (us ++ tail)) left n reports := by
  cases meets with
  | before opens passes =>
    have apart : Stops [.semicolon] (us ++ tail) := opens.append.stops (by decide)
    exact ⟨_, _, .none, .inl rfl, passes.bind_givesUp fun _ _ => .consume apart⟩
  | across few passes =>
    have ends := passes.bind_givesUp (f := fun a => consume .semicolon expected >>= g a)
      fun _ _ => .consume stops
    exact ⟨_, _, few, .inr rfl, by simpa using ends⟩
  | nowhere none apart givesUp => exact ⟨_, _, .none, .inr rfl, givesUp.bind⟩

/-- Where one follows, the rule gives up before `us`, or goes on behind the semicolon. -/
theorem passes (meets : Meets x ts us (semicolon :: rest) n) (isSemicolon : semicolon.kind = .semicolon)
    (next : ∀ a k, Passes (g a semicolon) rest left k []) :
    GivesUp (x >>= fun a => consume .semicolon expected >>= g a) (ts ++ (us ++ semicolon :: rest))
        (us ++ semicolon :: rest) n [] ∨
      ∃ reports, InPassing reports ∧ Passes (x >>= fun a => consume .semicolon expected >>= g a)
        (ts ++ (us ++ semicolon :: rest)) left n reports := by
  cases meets with
  | before opens passes =>
    have apart : Stops [.semicolon] (us ++ semicolon :: rest) := opens.append.stops (by decide)
    exact .inl (passes.bind_givesUp fun _ _ => .consume apart)
  | @across reports few passes =>
    have consumed (a : α) (k : Occurrence) :
        Passes (consume .semicolon expected >>= g a) (semicolon :: rest) left k [] :=
      (Leads.consume isSemicolon .refl).passes (next a k)
    exact .inr ⟨_, few, by simpa using passes.bind consumed⟩
  | nowhere none stops => exact absurd isSemicolon (by simpa using stops)

end Meets

theorem Phrase.meets (first : Phrase .assignment ts n m e) (second : OptionalPhrase us k l r)
    (apart : Stops phraseKinds tail) (fits : ts.length + us.length ≤ b) :
    Meets (expression b) ts us tail n := by
  have behind : Stops Rank.assignment.continuing tail :=
    apart.mono fun _ => List.mem_append_right _
  cases second with
  | none => exact .across .none (.of_reads (reads_expression first (by simpa using fits) behind))
  | some phrase =>
    obtain ⟨t, vs, rfl, member⟩ := phrase.opens
    by_cases joins : t.kind ∈ [.leftParen, .minus]
    · obtain ⟨reports, few, passes⟩ :=
        first.passes_joined phrase ⟨t, vs, rfl, joins⟩ fits behind
      exact .across few (by simpa using passes)
    · have other : t.kind ∉ Rank.assignment.continuing := by
        revert joins
        generalize t.kind = kind at member
        revert kind
        decide
      have read : Reads (expression b) ts (t :: vs ++ tail) n _ _ :=
        reads_expression first (by omega) (stops_cons.2 other)
      exact .before ⟨t, vs, rfl, member⟩ (.of_reads read)

theorem leads_optionalExpression (stops : Stops [closing] rest) :
    Leads (optionalExpression closing b) (some <$> expression b) [] rest n n :=
  .unseen stops (show Leads (some <$> expression b) _ [] rest n n from .refl)

/-- As the value of a `return` is read, and the condition of a `for`. -/
theorem OptionalPhrase.meets (first : OptionalPhrase ts n m e) (second : OptionalPhrase us k l r)
    (apart : Stops phraseKinds tail) (fits : ts.length + us.length ≤ b) :
    Meets (optionalExpression .semicolon b) ts us tail n := by
  cases first with
  | some phrase =>
    have present : Stops [.semicolon] (ts ++ (us ++ tail)) := phrase.opens.append.stops (by decide)
    exact (phrase.meets second apart fits).map.leads (leads_optionalExpression present)
  | none =>
    cases second with
    | some phrase =>
      have present : Stops [.semicolon] (us ++ tail) := phrase.opens.append.stops (by decide)
      obtain ⟨_, _, phrase⟩ := phrase.readable n
      have read : Reads (expression b) us tail n _ _ := reads_expression phrase (by simpa using fits)
        (apart.mono fun _ => List.mem_append_right _)
      exact .across .none ((leads_optionalExpression present).passes (Passes.of_reads read).map)
    | none =>
      by_cases next : Stops [.semicolon] tail
      · refine .nowhere rfl next ?_
        exact (leads_optionalExpression next).givesUp (givesUp_expression apart).map
      · obtain ⟨t, member, isSemicolon⟩ : ∃ t ∈ tail.head?, t.kind = .semicolon := by
          simpa [Stops] using next
        have read : Reads (optionalExpression .semicolon b) [] tail n n Option.none :=
          .seen member isSemicolon (show Leads (pure Option.none) _ [] tail n n from .refl)
        exact .across .none (.of_reads read)

/-- A declaration is an expression with its semicolon, or it opens with a word or a brace. -/
theorem Declaration.shape (derived : Declaration .nearest ts n m s) :
    (∃ us k e semicolon, ts = us ++ [semicolon] ∧ Phrase .assignment us n k e ∧
      semicolon.kind = .semicolon) ∨ Opens (declarationKinds ++ statementKinds) ts := by
  cases derived with
  | classDecl kind | function kind | «variable» kind =>
    exact .inr ⟨_, _, rfl, by simp [kind, declarationKinds]⟩
  | statement inner =>
    cases inner with
    | expression phrase isSemicolon => exact .inl ⟨_, _, _, _, rfl, phrase, isSemicolon⟩
    | print kind | ret kind | block kind | loop kind | forLoop kind | branch kind | branchElse kind =>
      exact .inr ⟨_, _, rfl, by simp [kind, statementKinds]⟩

/-- The tokens are a declaration, whatever identities are unused before it. -/
def Declared (ts : List Token) : Prop := ∀ n, ∃ m s, Declaration .nearest ts n m s

/-- How far the tokens behind a missing semicolon can be read with what stands before it, if at all. The
last token read is then the semicolon of the declaration that they begin with. -/
inductive Reach (us tail : List Token) : Prop where
  | none : us = [] → Stops [.semicolon] tail → Reach us tail
  | declaration : tail = semicolon :: rest → semicolon.kind = .semicolon →
      Declared (us ++ [semicolon]) → Stops [.keyword .elseWord] rest → Reach us tail

theorem Sequel.reach (sequel : Sequel rest) : ∃ us tail, rest = us ++ tail ∧
    (∃ n m r, OptionalPhrase us n m r) ∧ Stops phraseKinds tail ∧ Reach us tail := by
  have none {ts : List Token} (stops : Stops (.semicolon :: phraseKinds) ts) : ∃ us tail,
      ts = us ++ tail ∧ (∃ n m r, OptionalPhrase us n m r) ∧ Stops phraseKinds tail ∧ Reach us tail :=
    ⟨[], ts, rfl, ⟨0, 0, _, .none⟩, stops.tail, .none rfl (stops.mono (by simp))⟩
  cases sequel with
  | ending => exact none stops_nil
  | closing among =>
    refine none (stops_cons.2 ?_)
    revert among
    generalize Token.kind _ = kind
    revert kind
    decide
  | declaration derived noElse =>
    rcases derived.shape with ⟨us, k, e, semicolon, rfl, phrase, isSemicolon⟩ | opens
    · have declared : Declared (us ++ [semicolon]) := by
        intro n
        obtain ⟨_, _, phrase⟩ := phrase.readable n
        exact ⟨_, _, .statement (.expression phrase isSemicolon)⟩
      refine ⟨us, semicolon :: _, by simp, ⟨_, _, _, .some phrase⟩, ?_,
        .declaration rfl isSemicolon declared noElse⟩
      rw [stops_cons, isSemicolon]
      decide
    · exact none (opens.append.stops (by decide))

/-- What comes of a declaration without one of its semicolons, with one report at most that no rule gives
up with: it is read with the declaration that follows it, which only happens to a `whole` one, or the rule
gives up, right there or at a closing parenthesis. -/
inductive Outcome (whole : Prop) (rule : Rule α) (ts rest : List Token) (n : Occurrence) : Prop where
  | passes : whole → InPassing reports → rest = us ++ left → Declared us →
      Stops [.keyword .elseWord] left → Passes rule (ts ++ rest) left n reports →
      Outcome whole rule ts rest n
  | givesUp : InPassing reports → rest = taken ++ left → (taken ≠ [] → Opens [.rightParen] left) →
      GivesUp rule (ts ++ rest) left n reports → Outcome whole rule ts rest n

namespace Outcome

variable {whole : Prop} {x y : Rule α}

theorem givesUp_there (few : InPassing reports) (givesUp : GivesUp x (ts ++ rest) rest n reports) :
    Outcome whole x ts rest n := .givesUp few (List.nil_append _).symm nofun givesUp

theorem leads {entire : Prop} (leads : Leads x y vs (ts ++ rest) n k) (outcome : Outcome whole y ts rest k)
    (more : whole → entire) : Outcome entire x (vs ++ ts) rest n := by
  cases outcome with
  | passes closed few split declared noElse passes =>
    exact .passes (more closed) few split declared noElse (by simpa using leads.passes passes)
  | givesUp few split stopped givesUp =>
    exact .givesUp few split stopped (by simpa using leads.givesUp givesUp)

theorem bind {f : α → Rule β} (outcome : Outcome whole x ts rest n)
    (next : ∀ a us k, Stops [.keyword .elseWord] us → Passes (f a) us us k []) :
    Outcome whole (x >>= f) ts rest n := by
  cases outcome with
  | passes closed few split declared noElse passes =>
    exact .passes closed few split declared noElse
      (by simpa using passes.bind fun a k => next a _ k noElse)
  | givesUp few split stopped givesUp => exact .givesUp few split stopped givesUp.bind

end Outcome

theorem Meets.outcome {x : Rule α} {g : α → β} (meets : Meets x ts us tail n) (reach : Reach us tail) :
    Outcome True (do
      let a ← x
      let _ ← consume .semicolon expected
      return g a) ts (us ++ tail) n := by
  cases reach with
  | none empty stops =>
    obtain ⟨left, reports, few, place, givesUp⟩ :=
      meets.givesUp (g := fun a _ => pure (g a)) stops
    obtain rfl : left = us ++ tail := by simpa [empty] using place
    exact .givesUp_there few givesUp
  | @declaration semicolon rest begins isSemicolon declared noElse =>
    subst begins
    rcases meets.passes isSemicolon (g := fun a _ => pure (g a)) fun _ _ => .pure with
      givesUp | ⟨reports, few, passes⟩
    · exact .givesUp_there .none givesUp
    · exact .passes trivial few (by simp) declared noElse passes

section

variable {inner : Inner} {keyword : Token} {rest : List Token}

theorem leads_print (isPrint : keyword.kind = .keyword .printWord) :
    Leads (statementRule inner b) (printStatement b) [keyword] rest n n := by
  refine .present (by simp [isPrint, statementKinds]) ?_
  simp only [isPrint]
  exact .refl

theorem leads_return (isReturn : keyword.kind = .keyword .returnWord) :
    Leads (statementRule inner b) (returnStatement keyword b) [keyword] rest n n := by
  refine .present (by simp [isReturn, statementKinds]) ?_
  simp only [isReturn]
  exact .refl

theorem leads_while (isWhile : keyword.kind = .keyword .whileWord) :
    Leads (statementRule inner b) (whileStatement inner.statement b) [keyword] rest n n := by
  refine .present (by simp [isWhile, statementKinds]) ?_
  simp only [isWhile]
  exact .refl

theorem leads_if (isIf : keyword.kind = .keyword .ifWord) :
    Leads (statementRule inner b) (ifStatement inner.statement b) [keyword] rest n n := by
  refine .present (by simp [isIf, statementKinds]) ?_
  simp only [isIf]
  exact .refl

theorem leads_for (isFor : keyword.kind = .keyword .forWord) :
    Leads (statementRule inner b) (forStatement inner.statement b) [keyword] rest n n := by
  refine .present (by simp [isFor, statementKinds]) ?_
  simp only [isFor]
  exact .refl

theorem leads_block (isOpening : opening.kind = .leftBrace) :
    Leads (statementRule inner b) (.block <$> block inner.declaration b) [opening] rest n n := by
  refine .present (by simp [isOpening, statementKinds]) ?_
  simp only [isOpening]
  exact .refl

theorem leads_initializer (isVar : keyword.kind = .keyword .varWord) :
    Leads (forInitializer b) (some <$> varDeclaration b) [keyword] rest n n := by
  refine .present (by simp [isVar]) ?_
  simp only [isVar, reduceCtorEq, if_false]
  exact .refl

theorem leads_expressionStatement (stops : Stops statementKinds rest) :
    Leads (statementRule inner b) (expressionStatement b) [] rest n n := .absent stops .refl

end

theorem Clause.outcome {inner : Inner} (clause : Clause ts n) (sequel : Sequel rest)
    (fits : ts.length + rest.length ≤ b) :
    Outcome (Clause ts n) (statementRule inner b) ts rest n := by
  obtain ⟨us, tail, rfl, ⟨_, _, _, second⟩, apart, reach⟩ := sequel.reach
  rw [List.length_append] at fits
  cases clause with
  | expression phrase =>
    have present : Stops statementKinds (ts ++ (us ++ tail)) := phrase.opens.append.stops (by decide)
    exact ((phrase.meets second apart (by omega)).outcome reach).leads (leads_expressionStatement present)
      fun _ => .expression phrase
  | print isPrint phrase =>
    simp only [List.length_cons] at fits
    exact ((phrase.meets second apart (by omega)).outcome reach).leads (leads_print isPrint)
      fun _ => .print isPrint phrase
  | ret isReturn value =>
    simp only [List.length_cons] at fits
    exact ((value.meets second apart (by omega)).outcome reach).leads (leads_return isReturn)
      fun _ => .ret isReturn value

/-- What follows the name and perhaps the equals sign of a variable. -/
def variableRest (name : Token) (initializer : Rule (Option Expr)) : Rule Stmt := do
  let initializer ← initializer
  let _ ← consume .semicolon .variableEnd
  return .var name initializer

theorem Binding.meets (binding : Binding ts n) (second : OptionalPhrase us k l r)
    (apart : Stops phraseKinds tail) (fits : ts.length + us.length ≤ b) :
    ∃ name initializer vs zs, ts = vs ++ zs ∧ Meets initializer zs us tail n ∧
      Leads (varDeclaration b) (variableRest name initializer) vs (zs ++ (us ++ tail)) n n := by
  cases binding with
  | @bare name _ ident =>
    refine ⟨name, pure none, [name], [], rfl, ?_, ?_⟩
    · cases second with
      | none => exact .across .none .pure
      | some phrase => exact .before phrase.opens .pure
    · have noValue : Stops [.equal] (us ++ tail) := by
        cases second with
        | none => exact apart.mono (by decide)
        | some phrase => exact phrase.opens.append.stops (by decide)
      exact .consume ident (.absent noValue .refl)
  | @initialized ts _ _ _ name equals ident isEqual phrase =>
    simp only [List.length_cons] at fits
    refine ⟨name, some <$> expression b, [name, equals], ts, rfl, ?_, ?_⟩
    · exact (phrase.meets second apart (by omega)).map
    · exact .consume ident (.present (by simp [isEqual]) .refl)

theorem Binding.outcome (binding : Binding ts n) (sequel : Sequel rest)
    (fits : ts.length + rest.length ≤ b) : Outcome True (varDeclaration b) ts rest n := by
  obtain ⟨us, tail, rfl, ⟨_, _, _, second⟩, apart, reach⟩ := sequel.reach
  rw [List.length_append] at fits
  obtain ⟨name, initializer, vs, zs, rfl, meets, leads⟩ := binding.meets second apart (b := b) (by omega)
  exact (meets.outcome reach).leads leads id

theorem stops_semicolon (isSemicolon : semicolon.kind = .semicolon) (ts : List Token) :
    Stops phraseKinds (semicolon :: ts) := by
  rw [stops_cons, isSemicolon]
  decide

theorem stops_parenthesis (isClosing : closing.kind = .rightParen) (ts : List Token) :
    Stops (.semicolon :: phraseKinds) (closing :: ts) := by
  rw [stops_cons, isClosing]
  decide

/-- The initializer of a `for` is read up to the semicolon of the condition, or the rule gives up before
the condition. -/
theorem Beginning.outcome (beginning : Beginning ts n) (condition : OptionalPhrase us k l r)
    (isSemicolon : semicolon.kind = .semicolon) (rest : List Token) (fits : ts.length + us.length < b) :
    GivesUp (forInitializer b) (ts ++ (us ++ semicolon :: rest)) (us ++ semicolon :: rest) n [] ∨
      ∃ reports, InPassing reports ∧
        Passes (forInitializer b) (ts ++ (us ++ semicolon :: rest)) rest n reports := by
  have apart := stops_semicolon isSemicolon rest
  cases beginning with
  | none =>
    have read : ∃ m i, Initializer (us ++ [semicolon]) n m i := by
      cases condition with
      | none => exact ⟨_, _, .none isSemicolon⟩
      | some phrase =>
        obtain ⟨_, _, phrase⟩ := phrase.readable n
        exact ⟨_, _, .expression phrase isSemicolon⟩
    obtain ⟨m, i, read⟩ := read
    have passes : Passes (forInitializer b) (us ++ [semicolon] ++ rest) rest n [] :=
      .of_reads (read.reads (by simp at fits ⊢; omega))
    exact .inr ⟨[], .none, by simpa using passes⟩
  | declared isVar binding =>
    simp only [List.length_cons] at fits
    obtain ⟨name, initializer, vs, zs, rfl, meets, leads⟩ :=
      binding.meets condition apart (b := b) (by omega)
    rcases meets.passes isSemicolon (g := fun i _ => pure (Stmt.var name i))
        fun _ _ => .pure with givesUp | ⟨reports, few, passes⟩
    · exact .inl (by simpa using (leads_initializer isVar).givesUp (leads.givesUp givesUp).map)
    · exact .inr ⟨reports, few, by simpa using (leads_initializer isVar).passes (leads.passes passes).map⟩
  | expression phrase =>
    have absent : Leads (forInitializer b) (some <$> expressionStatement b) []
        (ts ++ (us ++ semicolon :: rest)) n n :=
      .absent (phrase.opens.append.stops (by decide)) .refl
    rcases (phrase.meets condition apart (b := b) (by omega)).passes isSemicolon
        (g := fun e _ => pure (Stmt.expression e)) fun _ _ => .pure with
      givesUp | ⟨reports, few, passes⟩
    · exact .inl (absent.givesUp givesUp.map)
    · exact .inr ⟨reports, few, absent.passes passes.map⟩

/-- In the place of the condition of a `for` no increment is read whole. -/
theorem OptionalPhrase.refused {g : Option Expr → Token → Rule β} (increment : OptionalPhrase us k l r)
    (isClosing : closing.kind = .rightParen) (fits : us.length ≤ b) :
    GivesUp (optionalExpression .semicolon b >>= fun e => consume .semicolon expected >>= g e)
      (us ++ closing :: rest) (closing :: rest) n [] := by
  have apart := stops_parenthesis isClosing rest
  cases increment with
  | none =>
    have none : GivesUp (optionalExpression .semicolon b) (closing :: rest) (closing :: rest) n [] :=
      (leads_optionalExpression (apart.mono (by simp))).givesUp (givesUp_expression apart.tail).map
    exact none.bind
  | some phrase =>
    obtain ⟨_, _, phrase⟩ := phrase.readable n
    have read : Reads (expression b) us (closing :: rest) n _ _ := reads_expression phrase fits
      (apart.tail.mono fun _ => List.mem_append_right _)
    have present : Stops [.semicolon] (us ++ closing :: rest) := phrase.opens.append.stops (by decide)
    have passes := (leads_optionalExpression present).passes (Passes.of_reads read).map
    exact passes.bind_givesUp fun _ _ => .consume (apart.mono (by simp))

/-- What follows the opening parenthesis of a `for`. -/
def forRest (statement : Rule Stmt) (bound : Nat) : Rule Stmt := do
  let initializer ← forInitializer bound
  let condition ← optionalExpression .semicolon bound
  let _ ← consume .semicolon .forConditionEnd
  let increment ← optionalExpression .rightParen bound
  let _ ← consume .rightParen .forClosing
  return lowered initializer condition increment (← statement)

theorem leads_forRest {inner : Inner} (isFor : keyword.kind = .keyword .forWord)
    (isOpening : opening.kind = .leftParen) :
    Leads (statementRule inner b) (forRest inner.statement b) [keyword, opening] rest n n :=
  (leads_for isFor).trans (.consume isOpening .refl)

theorem Torn.outcome {inner : Inner} (torn : Torn ts rest n) (fits : ts.length + rest.length ≤ b) :
    Outcome (Clause ts n) (statementRule inner b) ts rest n := by
  cases torn with
  | clause clause sequel => exact clause.outcome sequel fits
  | @initializer is _ cs _ _ _ us _ _ keyword opening semicolon closing rest isFor isOpening beginning
      condition isSemicolon increment isClosing =>
    simp only [List.length_cons, List.length_append] at fits
    rcases beginning.outcome condition isSemicolon (us ++ closing :: rest) (b := b) (by omega) with
      givesUp | ⟨reports, few, passes⟩
    · exact .givesUp_there .none ((leads_forRest isFor isOpening).givesUp givesUp.bind)
    · have refused : GivesUp (forRest inner.statement b) _ (closing :: rest) n (reports ++ []) :=
        passes.bind_givesUp fun _ _ => increment.refused isClosing (by omega)
      have split : cs ++ semicolon :: (us ++ closing :: rest) = (cs ++ semicolon :: us) ++ closing :: rest := by
        simp
      refine .givesUp few split (fun _ => ⟨closing, rest, rfl, by simp [isClosing]⟩) ?_
      simpa using (leads_forRest isFor isOpening).givesUp refused
  | @condition is _ _ _ cs _ _ us _ _ keyword opening closing rest isFor isOpening initializer condition
      increment isClosing =>
    simp only [List.length_cons, List.length_append] at fits
    have first : Reads (forInitializer b) is (cs ++ (us ++ closing :: rest)) n _ _ :=
      initializer.reads (by omega)
    have apart := stops_parenthesis isClosing rest
    obtain ⟨left, reports, few, place, givesUp⟩ :=
      (condition.meets increment apart.tail (b := b) (by omega)).givesUp (apart.mono (by simp))
    have ends : GivesUp (statementRule inner b) _ left n reports :=
      (leads_forRest isFor isOpening).givesUp ((Leads.bind_nil first .refl).givesUp givesUp)
    rcases place with rfl | rfl
    · exact .givesUp_there few (by simpa using ends)
    · exact .givesUp few rfl (fun _ => ⟨closing, rest, rfl, by simp [isClosing]⟩)
        (by simpa using ends)

end Lox.Grammar
