import Lox.Proofs.Grammar.Derivation
import Lox.Proofs.Grammar.Rule

/-! What the rules for expressions read is derived. The rule of each rank is sound for the phrases of
that rank if the rule for the expressions inside is. -/
namespace Lox.Grammar

namespace Precedence

/-- The operators that are refused at the front of an operand. -/
def leading : Precedence → List TokenKind
  | .disjunction | .conjunction => []
  | .equality => Precedence.equality.operators
  | .comparison => Precedence.comparison.operators
  | .term => [.plus]
  | .factor => Precedence.factor.operators

def level (p : Precedence) : Level := ⟨p.operators, p.node, p.leading⟩

/-- The level itself and all that bind more. -/
def andTighter : Precedence → List Precedence
  | .disjunction => [.disjunction, .conjunction, .equality, .comparison, .term, .factor]
  | .conjunction => [.conjunction, .equality, .comparison, .term, .factor]
  | .equality => [.equality, .comparison, .term, .factor]
  | .comparison => [.comparison, .term, .factor]
  | .term => [.term, .factor]
  | .factor => [.factor]

end Precedence

/-- The rule for the phrases of a rank, given the one for the expressions inside. -/
def Rank.rule (inner : Rule Expr) (bound : Nat) : Rank → Rule Expr
  | .assignment => Grammar.assignment inner bound
  | .binary p => (p.andTighter.map (·.level)).foldr (Level.rule bound) (Grammar.unary inner bound)
  | .unary => Grammar.unary inner bound
  | .call => Grammar.call inner bound
  | .primary => Grammar.primary inner

variable {inner : Rule Expr} {bound : Nat}

theorem rule_binary (p : Precedence) : (Rank.binary p).rule inner bound =
    p.level.rule bound (p.tighter.rule inner bound) := by
  cases p <;> rfl

/-- A rule reads the phrases of a rank. -/
abbrev SoundFor (r : Rank) (rule : Rule Expr) : Prop :=
  Sound rule fun ts _ n m e => Phrase r ts n m e

theorem sound_chain {p : Precedence} (operand : SoundFor p.tighter rule) (bound : Nat)
    (left : Expr) : Sound (p.level.chain rule bound left) fun ts _ n m e =>
      Operations p left ts n m e := by
  induction bound generalizing left with
  | zero =>
    rw [Level.chain]
    exact .accept? (.pure fun _ _ _ => .done) fun _ _ => .exhausted
  | succ bound ih =>
    rw [Level.chain]
    refine .accept? (.pure fun _ _ _ => .done) fun operator member => ?_
    refine .bind operand fun right => (ih _).mono ?_
    intro ts rest n m e operations us k phrase
    exact .more member phrase operations

theorem sound_refuseLeading {level : Level} (operand : Sound rule Q) :
    Sound (level.refuseLeading rule) fun ts _ n m _ => ts = [] ∧ n = m :=
  .accept? (.pure fun _ _ _ => ⟨rfl, rfl⟩) fun _ _ => .bind operand fun _ => .fail

theorem sound_binary {p : Precedence} (operand : SoundFor p.tighter rule) (bound : Nat) :
    SoundFor (.binary p) (p.level.rule bound rule) := by
  refine .bind (sound_refuseLeading operand) fun _ => .bind operand fun left => ?_
  refine (sound_chain operand bound left).mono ?_
  rintro ts rest n m e operations us k phrase vs l ⟨rfl, rfl⟩
  simpa using Phrase.binary phrase operations

theorem sound_primary (sound : SoundFor .assignment inner) :
    SoundFor .primary (Grammar.primary inner) := by
  refine .accept? (.get fun _ => .fail) fun t member => ?_
  split
  next kind => exact .pure fun _ _ => .constant (by simp [kind])
  next kind => exact .pure fun _ _ => .constant (by simp [kind])
  next kind => exact .pure fun _ _ => .constant (by simp [kind])
  next kind => exact .fresh fun i => .pure fun _ _ next => next ▸ .this kind
  next kind => exact .fresh fun i => .pure fun _ _ next => next ▸ .read kind
  next kind =>
    refine .bind sound fun e => .consume fun closing close => .pure ?_
    intro rest n ts k phrase
    exact .group kind phrase close
  next =>
    refine .pure fun _ _ => .literal ?_
    simp only [primaryKinds, List.mem_cons, List.not_mem_nil, or_false] at member ⊢
    simp_all

theorem sound_arguments (sound : SoundFor .assignment inner) (bound index : Nat) :
    Sound (arguments inner bound index) fun ts _ n m list =>
      ArgumentList ts n m list ∧ index + list.length ≤ maxArity := by
  induction bound generalizing index with
  | zero =>
    rw [arguments]
    refine .limited (.bind sound fun e => .accept? (.pure ?_) fun _ _ => .exhausted)
    intro rest n _ ts k phrase under
    exact ⟨.one (by simpa using phrase), Nat.lt_of_not_le under⟩
  | succ bound ih =>
    rw [arguments]
    refine .limited (.bind sound fun e => .accept? (.pure ?_) fun comma member => ?_)
    · intro rest n _ ts k phrase under
      exact ⟨.one (by simpa using phrase), Nat.lt_of_not_le under⟩
    · refine .bind (ih (index + 1)) fun list => .pure ?_
      intro rest n us l read ts k phrase under
      obtain ⟨derived, fits⟩ := read
      refine ⟨?_, by simp only [List.length_cons]; omega⟩
      simpa using ArgumentList.more phrase (List.mem_singleton.1 member) derived

theorem sound_argumentList (sound : SoundFor .assignment inner) (bound : Nat) :
    Sound (argumentList inner bound) fun ts _ n m r => ∃ us, ts = us ++ [r.2] ∧
      Arguments us n m r.1 ∧ r.1.length ≤ maxArity ∧ r.2.kind = .rightParen := by
  refine .sees ?_ ?_
  · refine .bind (sound_arguments sound bound 0) fun list => .consume fun closing close => .pure ?_
    intro rest n ts k read _
    exact ⟨ts, rfl, .some read.1, by simpa using read.2, close⟩
  · refine .consume fun closing close => .pure fun rest n => ?_
    exact ⟨[], rfl, .none, Nat.zero_le _, close⟩

theorem sound_suffixes (sound : SoundFor .assignment inner) (bound : Nat) (callee : Expr) :
    Sound (suffixes inner bound callee) fun ts _ n m e => Suffixes callee ts n m e := by
  induction bound generalizing callee with
  | zero =>
    rw [suffixes]
    exact .accept? (.pure fun _ _ _ => .done) fun _ _ => .exhausted
  | succ bound ih =>
    rw [suffixes]
    refine .accept? (.pure fun _ _ _ => .done) fun t member => ?_
    dsimp only
    split
    next opening =>
      refine .bind (sound_argumentList sound bound) fun r => (ih _).mono ?_
      rintro us rest k m e later ts n ⟨list, rfl, derived, fits, close⟩
      simpa using Suffixes.call opening derived close fits later
    next other =>
      have dot : t.kind = .dot := by simpa [other] using member
      exact .consume fun name ident => (ih _).mono fun later => .get dot ident later

theorem sound_call (sound : SoundFor .assignment inner) (bound : Nat) :
    SoundFor .call (Grammar.call inner bound) :=
  .bind (sound_primary sound) fun callee => (sound_suffixes sound bound callee).mono
    fun later _ _ phrase => .call phrase later

theorem sound_unary (sound : SoundFor .assignment inner) (bound : Nat) :
    SoundFor .unary (Grammar.unary inner bound) := by
  induction bound with
  | zero =>
    rw [Grammar.unary]
    exact .accept? ((sound_call sound 0).mono fun phrase _ => .plain phrase) fun _ _ => .exhausted
  | succ bound ih =>
    rw [Grammar.unary]
    refine .accept? ((sound_call sound _).mono fun phrase _ => .plain phrase) fun operator member => ?_
    refine .bind ih fun operand => .pure ?_
    intro rest n ts k phrase
    simpa using Phrase.unary member phrase

theorem sound_operation (sound : SoundFor .assignment inner) (bound : Nat) :
    SoundFor (.binary .disjunction) (operation inner bound) :=
  sound_binary (p := .disjunction) (sound_binary (p := .conjunction)
    (sound_binary (p := .equality) (sound_binary (p := .comparison)
      (sound_binary (p := .term) (sound_binary (p := .factor) (sound_unary sound bound)
        bound) bound) bound) bound) bound) bound

theorem Operations.done_or_node : Operations p left us k m e →
    (us = [] ∧ k = m ∧ e = left) ∨ ∃ l operator r, e = p.node l operator r
  | .done => .inl ⟨rfl, rfl, rfl⟩
  | .more _ _ rest => by
    rcases rest.done_or_node with ⟨-, -, rfl⟩ | found
    · exact .inr ⟨_, _, _, rfl⟩
    · exact .inr found

theorem Suffixes.done_or_suffix : Suffixes callee us k m e →
    (us = [] ∧ k = m ∧ e = callee) ∨ (∃ c closing list, e = .call c closing list) ∨
      ∃ o name, e = .get o name
  | .done => .inl ⟨rfl, rfl, rfl⟩
  | .call _ _ _ _ rest => by
    rcases rest.done_or_suffix with ⟨-, -, rfl⟩ | found
    · exact .inr (.inl ⟨_, _, _, rfl⟩)
    · exact .inr found
  | .get _ _ rest => by
    rcases rest.done_or_suffix with ⟨-, -, rfl⟩ | found
    · exact .inr (.inr ⟨_, _, rfl⟩)
    · exact .inr found

/-- Where the suffixes end in a property, that property is the last of them. -/
theorem Suffixes.last_get : Suffixes callee us k m e → e = .get object name →
    (us = [] ∧ k = m ∧ callee = .get object name) ∨
    ∃ vs dot, us = vs ++ [dot, name] ∧ dot.kind = .dot ∧ name.kind = .identifier ∧
      Suffixes callee vs k m object
  | .done, same => .inl ⟨rfl, rfl, same⟩
  | .call opening derived close fits rest, same => by
    rcases rest.last_get same with ⟨-, -, other⟩ | ⟨vs, dot, rfl, isDot, ident, before⟩
    · cases other
    · exact .inr ⟨_, dot, by simp, isDot, ident, .call opening derived close fits before⟩
  | .get isDot ident rest, same => by
    rcases rest.last_get same with ⟨rfl, rfl, other⟩ | ⟨vs, dot, rfl, isDot', ident', before⟩
    · cases other
      exact .inr ⟨[], _, rfl, isDot, ident, .done⟩
    · exact .inr ⟨_ :: _ :: vs, dot, rfl, isDot', ident', .get isDot ident before⟩

theorem Phrase.of_not_node (phrase : Phrase (.binary p) ts n m e)
    (none : ∀ l operator r, e ≠ p.node l operator r) : Phrase p.tighter ts n m e := by
  cases phrase with
  | binary operand operations =>
    rcases operations.done_or_node with ⟨rfl, rfl, rfl⟩ | ⟨l, operator, r, rfl⟩
    · simpa using operand
    · exact absurd rfl (none l operator r)

/-- A tree that no operator made is that of a call. -/
theorem Phrase.call_of_bare (phrase : Phrase (.binary .disjunction) ts n m e)
    (logical : ∀ l operator r, e ≠ .logical l operator r)
    (binary : ∀ l operator r, e ≠ .binary l operator r)
    (unary : ∀ operator r, e ≠ .unary operator r) : Phrase .call ts n m e := by
  have comparison := ((phrase.of_not_node logical).of_not_node logical).of_not_node binary
  have operand := ((comparison.of_not_node binary).of_not_node binary).of_not_node binary
  cases operand with
  | plain call => exact call
  | unary => exact absurd rfl (unary _ _)

theorem Phrase.name_of_read (phrase : Phrase (.binary .disjunction) ts n m (.read i name)) :
    ts = [name] ∧ name.kind = .identifier ∧ m = n + 1 := by
  cases phrase.call_of_bare (by simp) (by simp) (by simp) with
  | call primary suffixes =>
    rcases suffixes.done_or_suffix with ⟨rfl, rfl, rfl⟩ | ⟨_, _, _, same⟩ | ⟨_, _, same⟩
    · cases primary with
      | read ident => exact ⟨rfl, ident, rfl⟩
    · cases same
    · cases same

theorem Phrase.object_of_get (phrase : Phrase (.binary .disjunction) ts n m (.get object name)) :
    ∃ os dot, ts = os ++ [dot, name] ∧ dot.kind = .dot ∧ name.kind = .identifier ∧
      Phrase .call os n m object := by
  cases phrase.call_of_bare (by simp) (by simp) (by simp) with
  | call primary suffixes =>
    rcases suffixes.last_get rfl with ⟨rfl, rfl, rfl⟩ | ⟨vs, dot, rfl, isDot, ident, before⟩
    · cases primary
    · exact ⟨_, dot, by simp, isDot, ident, .call primary before⟩

theorem sound_assignment (sound : SoundFor .assignment inner) (bound : Nat) :
    SoundFor .assignment (Grammar.assignment inner bound) := by
  refine .bind (sound_operation sound bound) fun target => .accept? (.pure ?_) fun equals member => ?_
  · intro rest n _ ts k phrase
    simpa using Phrase.operation phrase
  have isEqual := List.mem_singleton.1 member
  refine .bind sound fun value => ?_
  split
  next i name =>
    refine .fresh fun j => .pure ?_
    rintro rest n rfl us k valued ts l named
    obtain ⟨rfl, ident, rfl⟩ := named.name_of_read
    simpa using Phrase.assign ident isEqual valued
  next object name =>
    refine .pure ?_
    intro rest n us k valued ts l property
    obtain ⟨os, dot, rfl, isDot, ident, called⟩ := property.object_of_get
    simpa using Phrase.set called isDot ident isEqual valued
  next => exact .report (P := fun _ _ _ _ _ => True) (.pure fun _ _ => trivial)

theorem sound_expression (bound : Nat) : SoundFor .assignment (expression bound) := by
  induction bound with
  | zero => exact sound_assignment .exhausted 0
  | succ bound ih => exact sound_assignment ih (bound + 1)

end Lox.Grammar
