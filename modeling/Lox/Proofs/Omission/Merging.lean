import Lox.Proofs.Grammar.ExpressionComplete

/-! Two expressions one right behind the other, with nothing between them. A second one that begins with
a parenthesis is read as a call of the last operand of the first, and one that begins with a minus sign
as a subtrahend. -/
namespace Lox.Grammar

/-- The tokens are a phrase, whatever identities are unused before it. -/
def Readable (r : Rank) (ts : List Token) : Prop := ∀ n, ∃ m e, Phrase r ts n m e

/-- The tokens are operators with their operands, whatever stands to their left. -/
def Operated (p : Precedence) (ts : List Token) : Prop := ∀ left n, ∃ m e, Operations p left ts n m e

/-- The tokens are calls and properties of whatever stands before them. -/
def Suffixed (ts : List Token) : Prop := ∀ callee n, ∃ m e, Suffixes callee ts n m e

mutual

/-- Other identities make no other phrase. -/
theorem Phrase.readable : Phrase r ts n m e → Readable r ts
  | .assign ident isEqual value => fun n =>
    let ⟨_, _, value⟩ := value.readable (n + 1)
    ⟨_, _, .assign ident isEqual value⟩
  | .set object isDot ident isEqual value => fun n =>
    let ⟨k, _, object⟩ := object.readable n
    let ⟨_, _, value⟩ := value.readable k
    ⟨_, _, .set object isDot ident isEqual value⟩
  | .operation inner => fun n =>
    let ⟨_, _, inner⟩ := inner.readable n
    ⟨_, _, .operation inner⟩
  | .binary operand operations => fun n =>
    let ⟨k, left, operand⟩ := operand.readable n
    let ⟨_, _, operations⟩ := operations.operated left k
    ⟨_, _, .binary operand operations⟩
  | .unary among operand => fun n =>
    let ⟨_, _, operand⟩ := operand.readable n
    ⟨_, _, .unary among operand⟩
  | .plain inner => fun n =>
    let ⟨_, _, inner⟩ := inner.readable n
    ⟨_, _, .plain inner⟩
  | .call callee suffixes => fun n =>
    let ⟨k, e, callee⟩ := callee.readable n
    let ⟨_, _, suffixes⟩ := suffixes.suffixed e k
    ⟨_, _, .call callee suffixes⟩
  | .constant kind => fun _ => ⟨_, _, .constant kind⟩
  | .literal kind => fun _ => ⟨_, _, .literal kind⟩
  | .this kind => fun _ => ⟨_, _, .this kind⟩
  | .read kind => fun _ => ⟨_, _, .read kind⟩
  | .group isOpening inner isClosing => fun n =>
    let ⟨_, _, inner⟩ := inner.readable n
    ⟨_, _, .group isOpening inner isClosing⟩

theorem Operations.operated : Operations p left ts n m e → Operated p ts
  | .done => fun _ _ => ⟨_, _, .done⟩
  | .more among operand operations => fun left n =>
    let ⟨k, right, operand⟩ := operand.readable n
    let ⟨_, _, operations⟩ := operations.operated (Precedence.node _ left _ right) k
    ⟨_, _, .more among operand operations⟩

theorem Suffixes.suffixed : Suffixes callee ts n m e → Suffixed ts
  | .done => fun _ _ => ⟨_, _, .done⟩
  | .call isOpening list isClosing few later => fun callee n =>
    let ⟨k, list', renumbered, same⟩ := list.renumbered n
    let ⟨_, _, later⟩ := later.suffixed (.call callee _ list') k
    ⟨_, _, .call isOpening renumbered isClosing (same ▸ few) later⟩
  | .get isDot ident later => fun callee n =>
    let ⟨_, _, later⟩ := later.suffixed (.get callee _) n
    ⟨_, _, .get isDot ident later⟩

theorem Arguments.renumbered : Arguments ts n m list →
    ∀ n', ∃ m' list', Arguments ts n' m' list' ∧ list'.length = list.length
  | .none => fun _ => ⟨_, _, .none, rfl⟩
  | .some list => fun n =>
    let ⟨_, _, renumbered, same⟩ := list.renumbered n
    ⟨_, _, .some renumbered, same⟩

theorem ArgumentList.renumbered : ArgumentList ts n m list →
    ∀ n', ∃ m' list', ArgumentList ts n' m' list' ∧ list'.length = list.length
  | .one e => fun n =>
    let ⟨_, _, e⟩ := e.readable n
    ⟨_, _, .one e, rfl⟩
  | .more e isComma list => fun n =>
    let ⟨k, _, e⟩ := e.readable n
    let ⟨_, _, renumbered, same⟩ := list.renumbered k
    ⟨_, _, .more e isComma renumbered, congrArg Nat.succ same⟩

end

theorem Suffixes.append : Suffixes callee ts n k e → Suffixes e us k m e' →
    Suffixes callee (ts ++ us) n m e'
  | .done, second => second
  | .call isOpening list isClosing few later, second => by
    simpa using Suffixes.call isOpening list isClosing few (later.append second)
  | .get isDot ident later, second => .get isDot ident (later.append second)

theorem Operations.append : Operations p left ts n k e → Operations p e us k m e' →
    Operations p left (ts ++ us) n m e'
  | .done, second => second
  | .more among operand later, second => by
    simpa using Operations.more among operand (later.append second)

/-- An operand is an operation without operators. -/
theorem Phrase.alone (operand : Phrase p.tighter ts n m e) : Phrase (.binary p) ts n m e := by
  simpa using Phrase.binary operand .done

theorem Phrase.operand (call : Phrase .call ts n m e) : Phrase (.binary .disjunction) ts n m e := by
  have factor : Phrase (.binary .factor) ts n m e := .alone (.plain call)
  have comparison : Phrase (.binary .comparison) ts n m e := .alone (.alone factor)
  exact .alone (.alone (.alone comparison))

theorem Phrase.property (object : Phrase .call ts n m e) (isDot : dot.kind = .dot)
    (ident : name.kind = .identifier) : Phrase .call (ts ++ [dot, name]) n m (.get e name) := by
  cases object with
  | call callee suffixes =>
    rw [List.append_assoc]
    exact .call callee (suffixes.append (.get isDot ident .done))

/-- Behind every phrase of the rank the tokens make a longer phrase of it. -/
def Joins (r : Rank) (us : List Token) : Prop := ∀ ⦃ts n m e⦄, Phrase r ts n m e → Readable r (ts ++ us)

theorem Joins.append (first : Joins r us) (second : Joins r vs) : Joins r (us ++ vs) := by
  intro ts n m e phrase
  obtain ⟨_, _, longer⟩ := first phrase n
  rw [← List.append_assoc]
  exact second longer

theorem Suffixed.joins (suffixed : Suffixed us) : Joins .call us := by
  intro ts n m e phrase
  cases phrase with
  | call callee suffixes =>
    obtain ⟨_, _, later⟩ := suffixed e m
    rw [List.append_assoc]
    exact (Phrase.call callee (suffixes.append later)).readable

theorem Operated.joins (operated : Operated p us) : Joins (.binary p) us := by
  intro ts n m e phrase
  cases phrase with
  | binary operand operations =>
    obtain ⟨_, _, later⟩ := operated e m
    rw [List.append_assoc]
    exact (Phrase.binary operand (operations.append later)).readable

/-- What continues a call continues the call that a sign stands before. -/
theorem Joins.unary (joins : Joins .call us) : Joins .unary us
  | _, _, _, _, .unary among operand => fun n =>
    let ⟨_, _, longer⟩ := Joins.unary joins operand n
    ⟨_, _, .unary among longer⟩
  | _, _, _, _, .plain inner => fun n =>
    let ⟨_, _, longer⟩ := joins inner n
    ⟨_, _, .plain longer⟩

/-- What continues an operand continues the last one. -/
theorem Operations.join (joins : Joins p.tighter us) : Operations p left ts n m e →
    ts = [] ∨ Operated p (ts ++ us)
  | .done => .inl rfl
  | .more among operand later => .inr <| by
    rcases later.join joins with none | longer
    · intro left n
      obtain ⟨k, right, operand⟩ := joins operand n
      have last : Operations p left (_ :: (_ ++ [])) n _ _ := .more among operand .done
      exact ⟨_, _, by simpa [none] using last⟩
    · intro left n
      obtain ⟨k, right, operand⟩ := operand.readable n
      obtain ⟨_, _, later⟩ := longer (p.node left _ right) k
      exact ⟨_, _, by simpa using Operations.more among operand later⟩

theorem Joins.binary (joins : Joins p.tighter us) : Joins (.binary p) us := by
  intro ts n m e phrase
  cases phrase with
  | binary operand operations =>
    rw [List.append_assoc]
    rcases operations.join joins with rfl | longer
    · intro n
      obtain ⟨_, _, operand⟩ := joins operand n
      exact ⟨_, _, operand.alone⟩
    · intro n
      obtain ⟨k, left, operand⟩ := operand.readable n
      obtain ⟨_, _, operations⟩ := longer left k
      exact ⟨_, _, .binary operand operations⟩

/-- Phrases of the rank that begin with one of the kinds can stand behind others of it. -/
def Follows (kinds : List TokenKind) (r : Rank) : Prop :=
  ∀ ⦃us n m e⦄, Phrase r us n m e → Opens kinds us → Joins r us

theorem Opens.first (opens : Opens kinds (ts ++ us)) (inhabited : 0 < ts.length) : Opens kinds ts := by
  cases ts with
  | nil => cases inhabited
  | cons t ts =>
    obtain ⟨_, _, same, member⟩ := opens
    cases same
    exact ⟨t, ts, rfl, member⟩

theorem Follows.binary (follows : Follows kinds p.tighter) : Follows kinds (.binary p) := by
  intro us n m e phrase opens
  cases phrase with
  | binary operand operations =>
    have first := opens.first operand.opens.length_pos
    exact (follows operand first).binary.append operations.operated.joins

/-- A group is an argument of the call before it. -/
theorem follows_parenthesis : Follows [.leftParen] .unary := by
  rintro us n m e phrase ⟨t, vs, rfl, member⟩
  have isOpening : t.kind = .leftParen := List.mem_singleton.1 member
  refine Joins.unary ?_
  generalize tokens : t :: vs = us at phrase
  cases phrase with
  | unary among =>
    cases tokens
    simp [isOpening] at among
  | plain call =>
    cases call with
    | call callee suffixes =>
      cases callee with
      | @group ts _ _ inner opening closing opens argument closes =>
        have suffixed : Suffixed (opening :: (ts ++ closing :: _)) := fun callee n =>
          let ⟨k, e, argument⟩ := argument.readable n
          let ⟨_, _, later⟩ := suffixes.suffixed (.call callee closing [e]) k
          ⟨_, _, .call opens (.some (.one argument)) closes (by simp [maxArity]) later⟩
        simpa using suffixed.joins
      | _ => simp_all

/-- A negated factor is subtracted from the term before it. -/
theorem follows_minus : Follows [.minus] (.binary .term) := by
  rintro us n m e phrase ⟨t, vs, rfl, member⟩
  have isMinus : t.kind = .minus := List.mem_singleton.1 member
  generalize tokens : t :: vs = us at phrase
  cases phrase with
  | binary factor terms =>
    refine Joins.append (Operated.joins ?_) terms.operated.joins
    cases factor with
    | binary operand factors =>
      cases operand with
      | @unary ts _ _ _ operator _ negated =>
        intro left n
        obtain ⟨k, e, negated⟩ := negated.readable n
        obtain ⟨m, e', factors⟩ := factors.operated e k
        have among : operator.kind ∈ Precedence.term.operators := by
          cases tokens
          simp [isMinus, Precedence.operators]
        have subtrahend := Phrase.binary (p := .factor) negated factors
        exact ⟨_, _, by simpa using Operations.more among subtrahend .done⟩
      | plain call =>
        obtain ⟨_, _, rfl, member⟩ := call.opens
        cases tokens
        simp [isMinus, Rank.opening, primaryKinds] at member

theorem follows_operation : Follows [.leftParen, .minus] (.binary .disjunction) := by
  have looser {kinds : List TokenKind} (term : Follows kinds (.binary .term)) :
      Follows kinds (.binary .disjunction) := by
    have comparison : Follows kinds (.binary .comparison) := .binary term
    have conjunction : Follows kinds (.binary .conjunction) := .binary (.binary comparison)
    exact .binary conjunction
  have term : Follows [.leftParen] (.binary .term) :=
    .binary (p := .term) (.binary (p := .factor) follows_parenthesis)
  rintro us n m e phrase ⟨t, vs, rfl, member⟩
  simp only [List.mem_cons, List.not_mem_nil, or_false] at member
  rcases member with parenthesis | minus
  · exact looser term phrase ⟨t, vs, rfl, List.mem_singleton.2 parenthesis⟩
  · exact looser follows_minus phrase ⟨t, vs, rfl, List.mem_singleton.2 minus⟩

end Lox.Grammar
