import Lox.Proofs.Grammar.StatementSound
import Lox.Proofs.Static.Surroundings
import Lox.Session

/-! Resolution reports each offence against the static rules once, and nothing else: for an expression by
induction on the expression, for a statement by induction on the statement. -/
namespace Lox

/-- The errors among findings. -/
abbrev errorsOf (findings : List Finding) : List Diagnostic := findings.filterMap Finding.error?

theorem errorsOf_append (first second : List Finding) :
    errorsOf (first ++ second) = errorsOf first ++ errorsOf second := List.filterMap_append

theorem errorsOf_refused {t : Token} (e : StaticError) (word : t.kind ≠ .eof) :
    errorsOf [.refused t e] = [.static t.line (.atLexeme t.lexeme) e] := by
  simp [errorsOf, Finding.refused, Finding.error?, Token.place, word]

section

variable {here : Surroundings} {outer : Spot} {elder : List Node}

/-- A declaration is reported if its name was declared before in the same local scope. -/
theorem Accounts.declaring {node : Node} {name : Token} {reported : List Diagnostic}
    (declares : node.declares? = some name) (listed : here.Listed outer elder)
    (word : name.kind ≠ .eof)
    (parts : Accounts reported (⟨node, elder⟩ :: outer) [] node.children) :
    Accounts (errorsOf (here.redeclaring name) ++ reported) outer elder [node] := by
  by_cases held : here.holds name = true
  · have local' : Spot.isLocal outer = true := by
      rcases listed.place with ⟨-, outside⟩ | ⟨local', -⟩
      · rw [Surroundings.not_holds_of_nil outside] at held
        cases held
      · exact local'
    rw [Surroundings.redeclaring, if_pos held, errorsOf_refused _ word]
    exact .guilty (.redeclared declares local' ((listed.holds local' name).1 held)) parts
  · rw [Surroundings.redeclaring, if_neg held]
    apply Accounts.innocent _ parts
    intro t e offends
    cases offends with
    | redeclared declares' local' declared =>
      obtain rfl := Option.some.inj (declares.symm.trans declares')
      exact held ((listed.holds local' name).2 declared)
    | _ => cases declares

/-- A node with nothing to blame does not offend, though its parts may. -/
theorem Accounts.silent {node : Node} {reported : List Diagnostic}
    (parts : Accounts reported (⟨node, elder⟩ :: outer) [] node.children)
    (silent : node.speaks = false) : Accounts reported outer elder [node] := by
  apply Accounts.innocent _ parts
  intro t e offends
  cases offends with
  | redeclared declares _ _ =>
    cases node with
    | statement s => cases s <;> simp [Node.speaks, Node.declares?] at silent declares
    | _ => simp [Node.speaks, Node.declares?] at silent declares
  | _ => cases silent

/-- A name is reported where it is read if an initializer of it is around. -/
theorem Accounts.reading {name : Token} (i : Occurrence) (seen : here.Seen outer)
    (word : name.kind ≠ .eof) :
    Accounts (errorsOf ((Expr.read i name).findings here)) outer elder [.expression (.read i name)] := by
  rw [Expr.findings, errorsOf_append]
  by_cases pending : here.isPending name = true
  · rw [if_pos pending, errorsOf_refused _ word]
    exact .guilty (.ownInitializer ((seen.pending name).1 pending)) .nil
  · rw [if_neg pending]
    apply Accounts.innocent _ .nil
    intro t e offends
    cases offends with
    | redeclared declares _ _ => cases declares
    | ownInitializer around => exact pending ((seen.pending name).2 around)

theorem Accounts.this {keyword : Token} (i : Occurrence) (seen : here.Seen outer)
    (word : keyword.kind ≠ .eof) :
    Accounts (errorsOf ((Expr.this i keyword).findings here)) outer elder
      [.expression (.this i keyword)] := by
  rw [Expr.findings]
  by_cases inClass : here.inClass = true
  · rw [if_pos inClass]
    apply Accounts.innocent _ .nil
    intro t e offends
    obtain ⟨step, member, class'⟩ := seen.inClass.1 inClass
    cases offends with
    | redeclared declares _ _ => cases declares
    | thisOutsideClass outside => simp [outside step member] at class'
  · rw [if_neg inClass, errorsOf_refused _ word]
    have outside : ∀ step ∈ outer, step.node.isClass = false := fun step member =>
      Bool.eq_false_iff.2 fun around => inClass (seen.inClass.2 ⟨step, member, around⟩)
    exact .guilty (.thisOutsideClass outside) .nil

/-- A `return` is reported, and then what is wrong in its value. -/
theorem Accounts.returning {keyword : Token} {value : Option Expr} {reported : List Diagnostic}
    (seen : here.Seen outer) (word : keyword.kind ≠ .eof)
    (parts : Accounts reported (⟨.statement (.ret keyword value), elder⟩ :: outer) []
      (Node.statement (.ret keyword value)).children) :
    Accounts (errorsOf (here.returning keyword) ++ reported) outer elder
      [.statement (.ret keyword value)] := by
  rw [Surroundings.returning]
  by_cases inFunction : here.inFunction = true
  · rw [if_pos inFunction]
    apply Accounts.innocent _ parts
    intro t e offends
    obtain ⟨step, member, function⟩ := seen.inFunction.1 inFunction
    cases offends with
    | redeclared declares _ _ => cases declares
    | returnOutsideFunction outside => simp [outside step member] at function
  · rw [if_neg inFunction, errorsOf_refused _ word]
    have outside : ∀ step ∈ outer, step.node.isFunction = false := fun step member =>
      Bool.eq_false_iff.2 fun around => inFunction (seen.inFunction.2 ⟨step, member, around⟩)
    exact .guilty (.returnOutsideFunction outside) parts

mutual

theorem Expr.accounts : (e : Expr) → e.NoEnd → {outer : Spot} → {elder : List Node} →
    here.Seen outer → Accounts (errorsOf (e.findings here)) outer elder [.expression e]
  | .constant _, _, _, _, _ => Accounts.nil.silent rfl
  | .group part, words, _, _, seen => by
    rw [Expr.findings]
    exact (part.accounts words (seen.part rfl rfl (by simp))).silent rfl
  | .unary _ part, words, _, _, seen => by
    rw [Expr.findings]
    exact (part.accounts words (seen.part rfl rfl (by simp))).silent rfl
  | .assign i name value, words, _, _, seen => by
    have only : errorsOf [here.referring i name] = [] := rfl
    rw [Expr.findings, errorsOf_append, only, List.append_nil]
    exact (value.accounts words (seen.part rfl rfl (by simp))).silent rfl
  | .get object _, words, _, _, seen => by
    rw [Expr.findings]
    exact (object.accounts words (seen.part rfl rfl (by simp))).silent rfl
  | .binary left _ right, words, _, _, seen => by
    rw [Expr.findings, errorsOf_append]
    exact ((left.accounts words.1 (seen.part rfl rfl (by simp))).append
      (right.accounts words.2 (seen.part rfl rfl (by simp)))).silent rfl
  | .logical left _ right, words, _, _, seen => by
    rw [Expr.findings, errorsOf_append]
    exact ((left.accounts words.1 (seen.part rfl rfl (by simp))).append
      (right.accounts words.2 (seen.part rfl rfl (by simp)))).silent rfl
  | .set object _ value, words, _, _, seen => by
    rw [Expr.findings, errorsOf_append]
    exact ((value.accounts words.2 (seen.part rfl rfl (by simp))).append
      (object.accounts words.1 (seen.part rfl rfl (by simp)))).silent rfl
  | .call callee _ arguments, words, _, _, seen => by
    rw [Expr.findings, errorsOf_append]
    exact ((callee.accounts words.1 (seen.part rfl rfl (by simp))).append
      (Expr.allAccounts arguments words.2 (seen.part rfl rfl (by simp)))).silent rfl
  | .read i _, word, _, _, seen => .reading i seen word
  | .this i _, word, _, _, seen => .this i seen word

theorem Expr.allAccounts : (list : List Expr) → Expr.AllNoEnd list → {outer : Spot} →
    {elder : List Node} → here.Seen outer →
      Accounts (errorsOf (Expr.allFindings here list)) outer elder (list.map .expression)
  | [], _, _, _, _ => .nil
  | e :: rest, words, _, _, seen => by
    rw [Expr.allFindings, errorsOf_append]
    exact (e.accounts words.1 seen).append (Expr.allAccounts rest words.2 seen)

end

/-- Parameters are declared one after the other. -/
theorem Accounts.parameters : (names : List Token) → (∀ t ∈ names, t.kind ≠ .eof) →
    {here : Surroundings} → {elder : List Node} → here.Listed outer elder →
      Accounts (errorsOf (here.redeclaringEach names)) outer elder (names.map .parameter)
  | [], _, _, _, _ => .nil
  | name :: rest, words, here, elder, listed => by
    obtain ⟨word, words⟩ := List.forall_mem_cons.1 words
    have first : Accounts (errorsOf (here.redeclaring name) ++ []) outer elder [.parameter name] :=
      .declaring rfl listed word .nil
    rw [List.append_nil] at first
    rw [Surroundings.redeclaringEach, errorsOf_append]
    exact first.append (.parameters rest words (listed.define rfl))

end

mutual

theorem Stmt.accounts : (s : Stmt) → s.Placed → s.NoEnd → {here : Surroundings} → {outer : Spot} →
    {elder : List Node} → here.Seen outer → (∀ name, ¬Spot.Initializes outer name) →
      (s.declares = true → here.Listed outer elder) →
        Accounts (errorsOf (s.findings here)) outer elder [.statement s]
  | .expression value, _, words, _, _, _, seen, _, _ => by
    rw [Stmt.findings]
    exact (value.accounts words (seen.part rfl rfl (by simp))).silent rfl
  | .print value, _, words, _, _, _, seen, _, _ => by
    rw [Stmt.findings]
    exact (value.accounts words (seen.part rfl rfl (by simp))).silent rfl
  | .var name none, _, words, here, outer, elder, _, _, listed => by
    have all : Accounts (errorsOf (here.redeclaring name) ++ []) outer elder
        [.statement (.var name none)] := .declaring rfl (listed rfl) words.1 .nil
    rwa [List.append_nil] at all
  | .var name (some value), _, words, _, _, _, seen, settled, listed => by
    rw [Stmt.findings, errorsOf_append]
    exact .declaring rfl (listed rfl) words.1
      (value.accounts (words.2 value rfl) (seen.declare settled (listed rfl)))
  | .block body, placed, words, here, outer, elder, seen, settled, _ => by
    have inside : (here.enter []).Seen (⟨.statement (.block body), elder⟩ :: outer) :=
      seen.inside settled (by simp) (by simp [Surroundings.enter, Node.isFunction])
        (by simp [Surroundings.enter, Node.isClass]) fun _ => rfl
    rw [Stmt.findings]
    exact (Stmt.allAccounts body placed words inside (Spot.settled_cons settled (by simp))
      (.enter rfl _ _)).silent rfl
  | .branch condition consequent none, placed, words, _, _, _, seen, settled, _ => by
    rw [Stmt.findings, errorsOf_append]
    exact ((condition.accounts words.1 (seen.part rfl rfl (by simp))).append
      (consequent.accounts placed.2 words.2 (seen.part rfl rfl (by simp))
        (Spot.settled_cons settled (by simp)) fun declares => by simp [placed.1] at declares)).silent rfl
  | .branch condition consequent (some alternative), placed, words, here, _, _, seen, settled, _ => by
    obtain ⟨⟨bare, placed⟩, bare', placed'⟩ := placed
    rw [Stmt.findings, errorsOf_append, errorsOf_append, List.append_assoc,
      here.after_of_not_declares consequent bare placed]
    exact ((condition.accounts words.1 (seen.part rfl rfl (by simp))).append
      ((consequent.accounts placed words.2.1 (seen.part rfl rfl (by simp))
        (Spot.settled_cons settled (by simp)) fun declares => by simp [bare] at declares).append
      (alternative.accounts placed' words.2.2 (seen.part rfl rfl (by simp))
        (Spot.settled_cons settled (by simp)) fun declares => by simp [bare'] at declares))).silent rfl
  | .loop condition body, placed, words, _, _, _, seen, settled, _ => by
    rw [Stmt.findings, errorsOf_append]
    exact ((condition.accounts words.1 (seen.part rfl rfl (by simp))).append
      (body.accounts placed.2 words.2 (seen.part rfl rfl (by simp))
        (Spot.settled_cons settled (by simp)) fun declares => by simp [placed.1] at declares)).silent rfl
  | .function declaration, placed, words, _, _, _, seen, settled, listed => by
    have word : declaration.name.kind ≠ .eof := by
      cases declaration
      exact words.1
    rw [Stmt.findings, errorsOf_append]
    exact .declaring rfl (listed rfl) word
      (declaration.accounts placed words ((seen.define settled).part rfl rfl (by simp))
        (Spot.settled_cons settled (by simp)))
  | .ret keyword none, _, words, here, outer, elder, seen, _, _ => by
    have all : Accounts (errorsOf (here.returning keyword) ++ []) outer elder
        [.statement (.ret keyword none)] := .returning seen words.1 .nil
    rwa [List.append_nil] at all
  | .ret keyword (some value), _, words, _, _, _, seen, _, _ => by
    rw [Stmt.findings, errorsOf_append]
    exact .returning seen words.1 (value.accounts (words.2 value rfl) (seen.part rfl rfl (by simp)))
  | .classDecl name methods, placed, words, here, outer, elder, seen, settled, listed => by
    have inside : (here.define name).inMethods.Seen
        (⟨.statement (.classDecl name methods), elder⟩ :: outer) := by
      have defined : (here.define name).Seen outer := seen.define settled
      apply defined.inside settled (by simp)
      · simp [Surroundings.inMethods, Surroundings.enter, Node.isFunction]
      · simp [Surroundings.inMethods, Node.isClass]
      · intro other
        simp [Surroundings.isPending, Surroundings.inMethods, Surroundings.enter, Bindings.get?]
    rw [Stmt.findings, errorsOf_append]
    exact .declaring rfl (listed rfl) words.1
      (FunctionDecl.allAccounts methods placed words.2 inside (Spot.settled_cons settled (by simp)))

theorem Stmt.allAccounts : (list : List Stmt) → Stmt.AllPlaced list → Stmt.AllNoEnd list →
    {here : Surroundings} → {outer : Spot} → {elder : List Node} → here.Seen outer →
      (∀ name, ¬Spot.Initializes outer name) → here.Listed outer elder →
        Accounts (errorsOf (Stmt.allFindings here list)) outer elder (list.map .statement)
  | [], _, _, _, _, _, _, _, _ => .nil
  | s :: rest, placed, words, _, _, _, seen, settled, listed => by
    rw [Stmt.allFindings, errorsOf_append]
    exact (s.accounts placed.1 words.1 seen settled fun _ => listed).append
      (Stmt.allAccounts rest placed.2 words.2 (seen.after settled placed.1) settled
        (listed.after placed.1))

theorem FunctionDecl.accounts : (f : FunctionDecl) → f.Placed → f.NoEnd → {here : Surroundings} →
    {outer : Spot} → {elder : List Node} → here.Seen outer →
      (∀ name, ¬Spot.Initializes outer name) →
        Accounts (errorsOf (f.findings here)) outer elder [.function f]
  | ⟨name, parameters, body⟩, placed, words, here, outer, elder, seen, settled => by
    have around : ∀ other, ¬Spot.Initializes (⟨.function ⟨name, parameters, body⟩, elder⟩ :: outer)
        other := Spot.settled_cons settled (by simp)
    have inside : (here.inBody []).Seen (⟨.function ⟨name, parameters, body⟩, elder⟩ :: outer) := by
      apply seen.inside settled (by simp)
      · simp [Surroundings.inBody, Node.isFunction]
      · simp [Surroundings.inBody, Surroundings.enter, Node.isClass]
      · exact fun _ => rfl
    have empty : (here.inBody []).Listed (⟨.function ⟨name, parameters, body⟩, elder⟩ :: outer) [] :=
      .enter rfl _ _
    rw [FunctionDecl.findings_eq, errorsOf_append]
    exact ((Accounts.parameters parameters words.2.1 empty).append
      (Stmt.allAccounts body placed words.2.2 (inside.defineEach parameters around) around
        (empty.defineEach parameters))).silent rfl

theorem FunctionDecl.allAccounts : (list : List FunctionDecl) → FunctionDecl.AllPlaced list →
    FunctionDecl.AllNoEnd list → {here : Surroundings} → {outer : Spot} → {elder : List Node} →
      here.Seen outer → (∀ name, ¬Spot.Initializes outer name) →
        Accounts (errorsOf (FunctionDecl.allFindings here list)) outer elder (list.map .function)
  | [], _, _, _, _, _, _, _ => .nil
  | f :: rest, placed, words, _, _, _, seen, settled => by
    rw [FunctionDecl.allFindings, errorsOf_append]
    exact (f.accounts placed.1 words.1 seen settled).append
      (FunctionDecl.allAccounts rest placed.2 words.2 seen settled)

end

theorem resolve_accounts {program : List Stmt} (placed : Stmt.AllPlaced program)
    (words : Stmt.AllNoEnd program) :
    Accounts (errorsOf (resolve program)) [] [] (program.map .statement) := by
  have settled : ∀ name, ¬Spot.Initializes [] name := by
    rintro name ⟨inner, x, value, elder, scope, same, -⟩
    simp at same
  have seen : Surroundings.Seen .topLevel [] := by
    constructor
    · simp [Surroundings.topLevel]
    · simp [Surroundings.topLevel]
    · intro name
      simp [settled, Surroundings.topLevel, Surroundings.isPending]
  have listed : Surroundings.Listed .topLevel [] [] := ⟨.inl ⟨rfl, rfl⟩, fun localList => by cases localList⟩
  exact Stmt.allAccounts program placed words seen settled listed

/-- Of a program that was read, resolution reports each offence against the static rules at the line and
the lexeme of the token to blame, each once, and nothing else. So it accepts just the programs without
offences. -/
theorem resolve_reports_offences {tokens : List Token} {first : Occurrence} {program : List Stmt}
    (parsed : (parse tokens first).1 = .ok program) :
    (∃ offences : List Offence, (offences.map (·.spot)).Nodup ∧
      (∀ o, o ∈ offences ↔ o.spot.Of program ∧ Offends o.spot o.token o.error) ∧
      (resolve program).filterMap Finding.error? =
        offences.map fun o => .static o.token.line (.atLexeme o.token.lexeme) o.error) ∧
    ∀ s : Session, (∃ s', s.resolve program = .ok () s') ↔
      ∀ spot, Spot.Of program spot → ∀ t e, ¬Offends spot t e := by
  have derived := Grammar.parse_derived (Prod.ext parsed rfl : parse tokens first = (.ok program, _))
  obtain ⟨offences, once, all, errors⟩ := resolve_accounts derived.placed derived.noEnd
  have reported : (resolve program).filterMap Finding.error? = offences.map Offence.report := errors
  constructor
  · exact ⟨offences, once, all, reported⟩
  · intro s
    have accepts : (∃ s', s.resolve program = .ok () s') ↔ offences = [] := by
      simp only [Session.resolve]
      rw [reported]
      cases offences <;> simp
    rw [accepts, List.eq_nil_iff_forall_not_mem]
    constructor
    · intro none spot within t e offends
      exact none ⟨spot, t, e⟩ ((all _).2 ⟨within, offends⟩)
    · intro none o member
      obtain ⟨within, offends⟩ := (all o).1 member
      exact none o.spot within o.token o.error offends

/-- The name on both sides of the first declaration below, and of the second. -/
def again : Token := ⟨.identifier, "a", none, 1⟩

/-- `{ var a = a; var a; }` -/
def declaredAgain : List Token :=
  let sign (kind : TokenKind) (lexeme : String) : Token := ⟨kind, lexeme, none, 1⟩
  [sign .leftBrace "\x7b", sign (.keyword .varWord) "var", again, sign .equal "=", again,
    sign .semicolon ";", sign (.keyword .varWord) "var", again, sign .semicolon ";",
    sign .rightBrace "\x7d"]

theorem resolve_reports_offences_declaredAgain :
    ∃ program, (parse declaredAgain 0).1 = .ok program ∧
    ∃ own redeclared : Offence, own.spot ≠ redeclared.spot ∧
      Offends own.spot own.token .ownInitializer ∧ Offends redeclared.spot redeclared.token .redeclared ∧
      own.token.lexeme = "a" ∧ redeclared.token.lexeme = "a" := by
  have both : (parse declaredAgain 0).1.toOption.map (fun program =>
      (resolve program).filterMap Finding.error?) =
        some [.static 1 (.atLexeme "a") .ownInitializer, .static 1 (.atLexeme "a") .redeclared] := by
    decide +kernel
  cases parsed : (parse declaredAgain 0).1 with
  | error errors =>
    rw [parsed] at both
    cases both
  | ok program =>
    refine ⟨program, rfl, ?_⟩
    rw [parsed] at both
    obtain ⟨⟨offences, once, all, reported⟩, -⟩ := resolve_reports_offences parsed
    have two := reported.symm.trans (Option.some.inj both)
    match offences with
    | [own, redeclared] =>
      have first := (all own).1 (by simp)
      have second := (all redeclared).1 (by simp)
      simp at two once
      obtain ⟨⟨-, lexeme, error⟩, -, lexeme', error'⟩ := two
      exact ⟨own, redeclared, once, error ▸ first.2, error' ▸ second.2, lexeme, lexeme'⟩
    | [] => simp at two
    | [_] => simp at two
    | _ :: _ :: _ :: _ => simp at two

end Lox
