import Lox.Proofs.Grammar.Language
import Lox.Proofs.Recovery.Statement
import Lox.Proofs.Relined.Units

/-! Tokens in parts, each of them a program or one statement that cannot be read. What is wrong with one
part is reported as if the part stood alone, and nothing else is reported. -/
namespace Lox

namespace Grammar

/-- The declarations from the tokens to the end of the file are read whole, whatever the bound is that
is enough for them, and so much is reported. -/
def Completes (declaration : Rule (Option Stmt)) (ts : List Token) (n m : Occurrence)
    (list : List Stmt) (errors : List Diagnostic) : Prop :=
  ∀ b last before, ts.length ≤ b → declarations declaration (fun _ => true) b ⟨ts, last, before, n⟩ =
    .ok list ⟨[], last, before ++ errors, m⟩

variable {declaration : Rule (Option Stmt)} {b : Nat} {us : List Token}

theorem completes_nil : Completes declaration [] n n [] [] := by
  intro b last before _
  rw [declarations.eq_def, List.append_nil]
  rfl

theorem Completes.cons {o : Option Stmt} (inhabited : 0 < ts.length)
    (first : ∀ last before,
      declaration ⟨ts ++ us, last, before, n⟩ = .ok o ⟨us, last, before ++ errors, k⟩)
    (later : Completes declaration us k m list more) :
    Completes declaration (ts ++ us) n m (o.toList ++ list) (errors ++ more) := by
  intro b last before fits
  rw [List.length_append] at fits
  obtain ⟨b, rfl⟩ : ∃ d, b = d + 1 := ⟨b - 1, by omega⟩
  have unread : (ts ++ us).isEmpty = false := by
    cases ts with
    | nil => cases inhabited
    | cons => rfl
  have step : declarations declaration (fun _ => true) (b + 1) ⟨ts ++ us, last, before, n⟩ =
      (do
        let first ← declaration
        return first.toList ++ (← declarations declaration (fun _ => true) b) : Rule (List Stmt))
        ⟨ts ++ us, last, before, n⟩ := by
    rw [declarations.eq_def]
    show (if ((ts ++ us).isEmpty || !true) = true then _ else _ : Rule (List Stmt)) _ = _
    rw [unread]
    rfl
  rw [step, bind_apply, first]
  dsimp only
  rw [bind_apply, later b last _ (by omega), List.append_assoc]
  rfl

/-- Before whatever is no `else` the tokens are read to the declarations, and so much is reported. -/
def ReadsAnywhere (ts : List Token) (n k : Occurrence) (list : List Stmt) (errors : List Diagnostic) :
    Prop :=
  ∀ ⦃b us m more others⦄, ts.length ≤ b → Stops [.keyword .elseWord] us →
    Completes (rules b).declaration us k m more others →
    Completes (rules b).declaration (ts ++ us) n m (list ++ more) (errors ++ others)

namespace ReadsAnywhere

theorem nil : ReadsAnywhere [] n n [] [] := fun _ _ _ _ _ _ _ later => later

theorem append (first : ReadsAnywhere ts n k list errors) (second : ReadsAnywhere us k m more others)
    (noElse : Stops [.keyword .elseWord] us) :
    ReadsAnywhere (ts ++ us) n m (list ++ more) (errors ++ others) := by
  intro b vs l last reports fits follow later
  rw [List.length_append] at fits
  rw [List.append_assoc, List.append_assoc, List.append_assoc]
  exact first (by omega) (noElse.append follow) (second (by omega) follow later)

/-- What stands alone stands before nothing. -/
theorem completes (reads : ReadsAnywhere ts n k list errors) :
    Completes (rules ts.length).declaration ts n k list errors := by
  simpa using reads (Nat.le_refl _) stops_nil completes_nil

end ReadsAnywhere

theorem ReadsAnywhere.one {o : Option Stmt} (inhabited : 0 < ts.length)
    (read : ∀ b us last before, ts.length ≤ b → Stops [.keyword .elseWord] us →
      (rules b).declaration ⟨ts ++ us, last, before, n⟩ = .ok o ⟨us, last, before ++ errors, k⟩) :
    ReadsAnywhere ts n k o.toList errors := fun b us _ _ _ fits follow later =>
  .cons inhabited (fun last before => read b us last before fits follow) later

theorem Declaration.readsAnywhere (derived : Declaration .nearest ts n k s) :
    ReadsAnywhere ts n k [s] [] := by
  refine .one (o := some s) derived.opens.length_pos fun b us last before fits follow => ?_
  have read : Reads (within (b + 1)).declaration ts us n k (some s) :=
    reads_within_declaration (fun _ fits => derived.reads fits follow) (by omega)
  rw [List.append_nil]
  exact read last before

/-- A program is read before other tokens as it is alone. -/
theorem Declarations.readsAnywhere (derived : Declarations .nearest ts n k list) :
    ReadsAnywhere ts n k list [] := by
  induction list generalizing ts n with
  | nil =>
    cases derived
    exact .nil
  | cons s list ih =>
    cases derived with
    | cons first rest =>
      exact first.readsAnywhere.append (ih rest) (by simpa using rest.follow stops_nil)

/-- So is a sentence, whether it can be read or not. An error made a rule give up iff it cannot. -/
theorem Sentence.readsAnywhere (sentence : Sentence ts) (n : Occurrence) :
    ∃ (o : Option Stmt) (errors : List Diagnostic) (k : Occurrence),
      errors.countP (·.unwinds) = (if o.isNone then 1 else 0) ∧ ReadsAnywhere ts n k o.toList errors := by
  obtain ⟨o, errors, k, unwound, reads⟩ := sentence.reads n
  refine ⟨o, errors, k, unwound, .one sentence.length_pos fun b us last before fits follow => ?_⟩
  have read := reads ⟨us, last, before, follow⟩ b fits
  simpa [Setting.cursor] using read

end Grammar

theorem Stmt.AllRelined.append {R : Nat → Nat → Prop} {a a' b b' : List Stmt}
    (first : Stmt.AllRelined R a a') (second : Stmt.AllRelined R b b') :
    Stmt.AllRelined R (a ++ b) (a' ++ b') := by
  induction a generalizing a' with
  | nil => cases first; exact second
  | cons s rest ih =>
    cases first with
    | cons one others => exact .cons one (ih others)

/-- Tokens that are parsed alone, and the first identity that is unused then. -/
structure Part where
  tokens : List Token
  fresh : Occurrence

namespace Part

def parsed (p : Part) : Except (List Diagnostic) (List Stmt) := (parse p.tokens p.fresh).1

def errors (p : Part) : List Diagnostic :=
  match p.parsed with
  | .ok _ => []
  | .error errors => errors

def statements (p : Part) : List Stmt :=
  match p.parsed with
  | .ok statements => statements
  | .error _ => []

def Accepted (p : Part) : Prop := ∃ program, p.parsed = .ok program

/-- One statement up to its semicolon, that is not accepted. In it is no brace, no `for`, and no word that
opens a statement but perhaps its first. -/
structure Malformed (p : Part) : Prop where
  statement : ∃ (line : List Token) (semicolon : Token), p.tokens = line ++ [semicolon] ∧
    semicolon.kind = .semicolon ∧
    (∀ t ∈ line, t.kind ∉ [.semicolon, .leftBrace, .rightBrace, .eof, .keyword .forWord]) ∧
    ∀ t ∈ line.tail, Grammar.opensStatement t.kind = false
  rejected : ¬ p.Accepted

variable {p : Part}

/-- What is parsed does not depend on the identities that are unused. -/
theorem relined (p : Part) (n : Occurrence) : ProgramRelined Eq (Part.mk p.tokens n).parsed p.parsed := by
  rw [parsed, parsed]
  cases p.tokens with
  | nil =>
    have nothing (n : Occurrence) : parse [] n = (.ok [], n) := (Grammar.parse_eq_ok_iff (by simp)).2 .nil
    rw [nothing, nothing]
    exact .ok .nil
  | cons t ts =>
    have same : List.Forall₂ (Token.Relined Eq) (t :: ts) (t :: ts) :=
      List.forall₂_same.2 fun t _ => ⟨rfl, rfl, rfl, rfl⟩
    exact parse_relined same (by simp) n p.fresh

theorem errors_eq (p : Part) (n : Occurrence) : (Part.mk p.tokens n).errors = p.errors := by
  have same := p.relined n
  rw [errors, errors]
  generalize (Part.mk p.tokens n).parsed = r, p.parsed = r' at same ⊢
  cases same with
  | ok => rfl
  | error all => exact Diagnostic.Relined.all_eq all

theorem Accepted.errors_eq_nil (accepted : p.Accepted) : p.errors = [] := by
  obtain ⟨program, parsed⟩ := accepted
  rw [errors, parsed]

/-- What is read is what is parsed, unless something was reported. -/
theorem of_readsAnywhere (noEnd : ∀ t ∈ p.tokens, t.kind ≠ .eof)
    (reads : Grammar.ReadsAnywhere p.tokens p.fresh k list reports) :
    p.errors = reports ∧ (reports = [] → p.parsed = .ok list) := by
  obtain ⟨last, start⟩ := Grammar.start_of_no_end p.fresh noEnd
  have ran := reads.completes p.tokens.length last [] (Nat.le_refl _)
  have parsed : p.parsed = if reports.isEmpty then .ok list else .error reports := by
    rw [parsed, parse, start, Grammar.program, ran]
    rfl
  cases reports with
  | nil => exact ⟨by rw [errors, parsed]; rfl, fun _ => parsed⟩
  | cons first rest => exact ⟨by rw [errors, parsed]; rfl, by simp⟩

theorem Accepted.readsAnywhere (accepted : p.Accepted) (noEnd : ∀ t ∈ p.tokens, t.kind ≠ .eof)
    (n : Occurrence) : ∃ k list, Grammar.ReadsAnywhere p.tokens n k list p.errors ∧
      Stmt.AllRelined Eq list p.statements := by
  rw [accepted.errors_eq_nil]
  obtain ⟨program, found⟩ := accepted
  have same := p.relined n
  rw [found, parsed] at same
  cases parsed : parse p.tokens n with
  | mk result k =>
    rw [parsed] at same
    cases same with
    | ok related =>
      have derived := (Grammar.parse_eq_ok_iff noEnd).1 parsed
      exact ⟨k, _, derived.readsAnywhere, by rwa [statements, found]⟩

theorem Malformed.sentence (malformed : p.Malformed) : Grammar.Sentence p.tokens := by
  obtain ⟨line, semicolon, split, isSemicolon, within, words⟩ := malformed.statement
  have plain {t : Token} (member : t ∈ line) (quiet : Grammar.opensStatement t.kind = false) :
      Grammar.separates t.kind = false := by
    have apart := within t member
    simp only [List.mem_cons, not_or] at apart
    simp [Grammar.separates, quiet, apart]
  rw [split]
  cases line with
  | nil => exact .line (.ending isSemicolon)
  | cons t ts =>
    have behind : Grammar.Line (ts ++ [semicolon]) := Grammar.line_of_plain isSemicolon
      fun t member => plain (List.mem_cons_of_mem _ member) (words t member)
    cases opens : Grammar.opensStatement t.kind with
    | false => exact .line (.more (plain List.mem_cons_self opens) behind)
    | true =>
      have noFor := within t List.mem_cons_self
      refine .opened ?_ behind
      unfold Grammar.opensStatement at opens
      split at opens <;> simp_all

/-- Something is reported where the statement is not accepted, and a rule gives up on it but once. -/
theorem Malformed.readsAnywhere (malformed : p.Malformed) (noEnd : ∀ t ∈ p.tokens, t.kind ≠ .eof)
    (n : Occurrence) : ∃ k list, Grammar.ReadsAnywhere p.tokens n k list p.errors ∧
      p.errors ≠ [] ∧ p.errors.countP (·.unwinds) ≤ 1 := by
  have inhabited : p.errors ≠ [] := by
    intro quiet
    obtain ⟨o, reports, k, -, reads⟩ := malformed.sentence.readsAnywhere p.fresh
    obtain ⟨same, parsed⟩ := of_readsAnywhere noEnd reads
    exact malformed.rejected ⟨_, parsed (same.symm.trans quiet)⟩
  obtain ⟨o, reports, k, unwound, reads⟩ := malformed.sentence.readsAnywhere n
  obtain ⟨same, -⟩ := of_readsAnywhere (p := ⟨p.tokens, n⟩) noEnd reads
  rw [errors_eq] at same
  rw [← same] at unwound reads
  refine ⟨k, o.toList, reads, inhabited, ?_⟩
  rw [unwound]
  split <;> decide

/-- No `else` stands before parts that begin with none. -/
theorem stops_flatMap (parts : List Part)
    (noElse : ∀ p ∈ parts, Grammar.Stops [.keyword .elseWord] p.tokens) :
    Grammar.Stops [.keyword .elseWord] (parts.flatMap (·.tokens)) := by
  induction parts with
  | nil => exact Grammar.stops_nil
  | cons p parts ih =>
    simp only [List.forall_mem_cons] at noElse
    rw [List.flatMap_cons]
    exact noElse.1.append (ih noElse.2)

/-- Part after part, each from where the one before it ended. -/
theorem readsAnywhere_flatMap (parts : List Part)
    (noEnd : ∀ p ∈ parts, ∀ t ∈ p.tokens, t.kind ≠ .eof)
    (noElse : ∀ p ∈ parts, Grammar.Stops [.keyword .elseWord] p.tokens)
    (each : ∀ p ∈ parts, p.Accepted ∨ p.Malformed) (n : Occurrence) : ∃ m list,
    Grammar.ReadsAnywhere (parts.flatMap (·.tokens)) n m list (parts.flatMap (·.errors)) ∧
      ((∀ p ∈ parts, p.Accepted) → Stmt.AllRelined Eq list (parts.flatMap (·.statements))) := by
  induction parts generalizing n with
  | nil => exact ⟨n, [], .nil, fun _ => .nil⟩
  | cons p parts ih =>
    simp only [List.forall_mem_cons] at noEnd noElse each
    have first : ∃ k list, Grammar.ReadsAnywhere p.tokens n k list p.errors ∧
        (p.Accepted → Stmt.AllRelined Eq list p.statements) := by
      rcases each.1 with accepted | malformed
      · obtain ⟨k, list, reads, related⟩ := accepted.readsAnywhere noEnd.1 n
        exact ⟨k, list, reads, fun _ => related⟩
      · obtain ⟨k, list, reads, -⟩ := malformed.readsAnywhere noEnd.1 n
        exact ⟨k, list, reads, fun accepted => absurd accepted malformed.rejected⟩
    obtain ⟨k, list, reads, related⟩ := first
    obtain ⟨m, more, later, relatedLater⟩ := ih noEnd.2 noElse.2 each.2 k
    refine ⟨m, list ++ more, reads.append later (stops_flatMap parts noElse.2), fun accepted => ?_⟩
    simp only [List.forall_mem_cons] at accepted
    exact (related accepted.1).append (relatedLater accepted.2)

end Part

/-- Of tokens in parts that are programs of their own or one malformed statement each, the errors are
those of each part alone, in order. A malformed statement gives one at least, and at most one that a rule
gave up with. Where all parts are programs the statements are theirs in order, but for the identities. -/
theorem parse_recovers_locally (parts : List Part) (fresh : Occurrence)
    (noEnd : ∀ p ∈ parts, ∀ t ∈ p.tokens, t.kind ≠ .eof)
    (noElse : ∀ p ∈ parts, Grammar.Stops [.keyword .elseWord] p.tokens)
    (each : ∀ p ∈ parts, p.Accepted ∨ p.Malformed) :
    let whole : Part := ⟨parts.flatMap (·.tokens), fresh⟩
    whole.errors = parts.flatMap (·.errors) ∧
    (∀ p ∈ parts, p.Malformed → p.errors ≠ [] ∧ p.errors.countP (·.unwinds) ≤ 1) ∧
    ((∀ p ∈ parts, p.Accepted) → whole.Accepted ∧
      Stmt.AllRelined Eq whole.statements (parts.flatMap (·.statements))) := by
  intro whole
  obtain ⟨m, list, reads, related⟩ := Part.readsAnywhere_flatMap parts noEnd noElse each fresh
  have noEndWhole : ∀ t ∈ whole.tokens, t.kind ≠ .eof := by
    intro t member
    obtain ⟨p, among, inside⟩ := List.mem_flatMap.1 member
    exact noEnd p among t inside
  obtain ⟨errors, parsed⟩ := Part.of_readsAnywhere noEndWhole reads
  refine ⟨errors, fun p among malformed => ?_, fun accepted => ?_⟩
  · obtain ⟨k, o, -, some⟩ := malformed.readsAnywhere (noEnd p among) fresh
    exact some
  · have quiet : parts.flatMap (·.errors) = [] :=
      List.flatMap_eq_nil_iff.2 fun p among => (accepted p among).errors_eq_nil
    refine ⟨⟨list, parsed quiet⟩, ?_⟩
    rw [Part.statements, parsed quiet]
    exact related accepted

/-- `(a) = b c;`, with a target that cannot be assigned to and a name too many. -/
def strayName : Part :=
  let name (lexeme : String) : Token := ⟨.identifier, lexeme, none, 1⟩
  let sign (kind : TokenKind) (lexeme : String) : Token := ⟨kind, lexeme, none, 1⟩
  ⟨[sign .leftParen "(", name "a", sign .rightParen ")", sign .equal "=", name "b", name "c",
    sign .semicolon ";"], 7⟩

theorem strayName_errors : strayName.errors = [.syntactic 1 (.atLexeme "=") .invalidTarget,
    .syntactic 1 (.atLexeme "c") (.expected .expressionEnd)] := by cbv

theorem strayName_malformed : strayName.Malformed := by
  refine ⟨⟨_, _, (List.dropLast_append_getLast (by decide)).symm, rfl, by decide, by decide⟩, ?_⟩
  intro accepted
  have errors := strayName_errors
  rw [accepted.errors_eq_nil] at errors
  cases errors

/-- `print a;`, the malformed statement, and `c;`. -/
def threeParts : List Part :=
  let name (lexeme : String) : Token := ⟨.identifier, lexeme, none, 1⟩
  let semicolon : Token := ⟨.semicolon, ";", none, 1⟩
  [⟨[⟨.keyword .printWord, "print", none, 1⟩, name "a", semicolon], 0⟩, strayName,
    ⟨[name "c", semicolon], 3⟩]

theorem parse_recovers_locally_threeParts : (∀ p ∈ threeParts, ∀ t ∈ p.tokens, t.kind ≠ .eof) ∧
    (∀ p ∈ threeParts, Grammar.Stops [.keyword .elseWord] p.tokens) ∧
    (∀ p ∈ threeParts, p.Accepted ∨ p.Malformed) ∧
    (Part.mk (threeParts.flatMap (·.tokens)) 0).errors =
      [.syntactic 1 (.atLexeme "=") .invalidTarget,
        .syntactic 1 (.atLexeme "c") (.expected .expressionEnd)] := by
  have noEnd : ∀ p ∈ threeParts, ∀ t ∈ p.tokens, t.kind ≠ .eof := by decide
  have noElse : ∀ p ∈ threeParts, Grammar.Stops [.keyword .elseWord] p.tokens := by
    simp [threeParts, strayName]
  have each : ∀ p ∈ threeParts, p.Accepted ∨ p.Malformed := by
    simp only [threeParts, List.forall_mem_cons, List.not_mem_nil, false_implies, implies_true,
      and_true]
    exact ⟨.inl ⟨_, by cbv⟩, .inr strayName_malformed, .inl ⟨_, by cbv⟩⟩
  refine ⟨noEnd, noElse, each, ?_⟩
  rw [(parse_recovers_locally threeParts 0 noEnd noElse each).1]
  cbv

end Lox
