import Lox.Proofs.Grammar.ExpressionSound

/-! The rules for expressions read every phrase. A phrase is read wherever no token behind it could
continue it, and with any bound that its length does not exceed. -/
namespace Lox.Grammar

/-- The kinds that continue a phrase of the rank. -/
def Rank.continuing : Rank → List TokenKind
  | .assignment => .equal :: (Precedence.disjunction.andTighter.flatMap (·.operators)) ++
    [.leftParen, .dot]
  | .binary p => p.andTighter.flatMap (·.operators) ++ [.leftParen, .dot]
  | .unary | .call => [.leftParen, .dot]
  | .primary => []

/-- The kinds a phrase of the rank begins with. -/
def Rank.opening : Rank → List TokenKind
  | .call | .primary => primaryKinds
  | .assignment | .binary _ | .unary => .bang :: .minus :: primaryKinds

theorem opening_primary {r : Rank} (member : kind ∈ primaryKinds) : kind ∈ r.opening := by
  cases r <;> simp [Rank.opening, member]

theorem opening_sign (member : kind ∈ [.bang, .minus]) : kind ∈ Rank.unary.opening := by
  rw [Rank.opening]
  exact List.mem_append_left primaryKinds member

theorem opening_constant (member : (kind, c) ∈ [(.keyword .trueWord, Constant.boolean true),
    (.keyword .falseWord, .boolean false), (.keyword .nilWord, .nil)]) : kind ∈ primaryKinds := by
  have among : kind ∈ [.keyword .trueWord, .keyword .falseWord, .keyword .nilWord] :=
    List.mem_map_of_mem (f := Prod.fst) member
  clear member
  revert kind
  decide

theorem opening_literal (member : kind ∈ [.number, .string]) : kind ∈ primaryKinds := by
  revert kind
  decide

theorem opening_tighter {p : Precedence} (member : kind ∈ p.tighter.opening) :
    kind ∈ (Rank.binary p).opening := by
  cases p <;> exact member

theorem opening_not_leading {p : Precedence} (member : kind ∈ p.tighter.opening) :
    kind ∉ p.leading := by
  cases p <;> revert kind <;> decide

theorem continuing_tighter {p : Precedence} (member : kind ∈ p.tighter.continuing) :
    kind ∈ (Rank.binary p).continuing := by
  cases p <;> revert kind <;> decide

theorem continuing_operators {p : Precedence} (member : kind ∈ p.operators) :
    kind ∈ (Rank.binary p).continuing := by
  cases p <;> revert kind <;> decide

theorem operators_not_continuing {p : Precedence} (member : kind ∈ p.operators) :
    kind ∉ p.tighter.continuing := by
  cases p <;> revert kind <;> decide

/-- The list is not empty and its first token is of one of the kinds. -/
def Opens (kinds : List TokenKind) (ts : List Token) : Prop :=
  ∃ t us, ts = t :: us ∧ t.kind ∈ kinds

theorem Opens.append (opens : Opens kinds ts) : Opens kinds (ts ++ us) := by
  obtain ⟨t, vs, rfl, member⟩ := opens
  exact ⟨t, vs ++ us, rfl, member⟩

theorem Opens.length_pos (opens : Opens kinds ts) : 0 < ts.length := by
  obtain ⟨t, vs, rfl, -⟩ := opens
  simp

theorem Opens.isEmpty (opens : Opens kinds ts) : ts.isEmpty = false := by
  obtain ⟨t, vs, rfl, -⟩ := opens
  rfl

theorem Opens.stops (opens : Opens kinds ts) (apart : ∀ kind ∈ kinds, kind ∉ others) :
    Stops others ts := by
  obtain ⟨t, vs, rfl, member⟩ := opens
  exact stops_cons.2 (apart _ member)

theorem Phrase.opens : Phrase r ts n m e → Opens r.opening ts
  | .assign ident _ _ => ⟨_, _, rfl, opening_primary (ident ▸ by decide)⟩
  | .set object _ _ _ _ => by
    obtain ⟨t, us, rfl, member⟩ := object.opens
    exact ⟨t, _, rfl, opening_primary member⟩
  | .operation inner => inner.opens
  | .binary operand _ => by
    obtain ⟨t, us, rfl, member⟩ := operand.opens
    exact ⟨t, _, rfl, opening_tighter member⟩
  | .unary member _ => ⟨_, _, rfl, opening_sign member⟩
  | .plain inner => by
    obtain ⟨t, us, rfl, member⟩ := inner.opens
    exact ⟨t, _, rfl, opening_primary member⟩
  | .call inner _ => inner.opens.append
  | .constant member => ⟨_, _, rfl, opening_constant member⟩
  | .literal member => ⟨_, _, rfl, opening_literal member⟩
  | .this kind | .read kind | .group kind _ _ => ⟨_, _, rfl, kind ▸ by decide⟩

theorem ArgumentList.opens : ArgumentList ts n m list → Opens (Rank.assignment.opening) ts
  | .one e => e.opens
  | .more e _ _ => e.opens.append

/-- The rule for the expressions inside one that is read with the bound. -/
def inside : (bound : Nat) → Rule Expr
  | 0 => throw .exhausted
  | bound + 1 => expression bound

theorem expression_eq_assignment (bound : Nat) :
    expression bound = assignment (inside bound) bound := by
  cases bound <;> rfl

theorem reads_inside
    (read : ∀ b, ts.length ≤ b → Reads (assignment (inside b) b) ts rest n m e)
    (fits : ts.length < c) : Reads (inside c) ts rest n m e := by
  cases c with
  | zero => omega
  | succ c =>
    show Reads (expression c) ts rest n m e
    rw [expression_eq_assignment]
    exact read c (by omega)

theorem Operations.stops : Operations p left us n m e → Stops (Rank.binary p).continuing rest →
    Stops p.tighter.continuing (us ++ rest)
  | .done, stops => stops.mono fun _ => continuing_tighter
  | .more member _ _, _ => stops_cons.2 (operators_not_continuing member)

section

variable {inner : Rule Expr} {bound : Nat}

theorem reads_binary {p : Precedence} (opens : Opens p.tighter.opening ts)
    (operand : Reads (p.tighter.rule inner bound) ts (us ++ rest) n k left)
    (operations : Reads (p.level.chain (p.tighter.rule inner bound) bound left) us rest k m e) :
    Reads ((Rank.binary p).rule inner bound) (ts ++ us) rest n m e := by
  have none : Reads (p.level.refuseLeading (p.tighter.rule inner bound)) [] (ts ++ us ++ rest)
      n n () := .absent (opens.append.append.stops fun _ => opening_not_leading) .refl
  rw [rule_binary]
  show Reads _ ([] ++ (ts ++ us)) rest n m e
  exact .bind none (.bind operand operations)

theorem reads_chain_done (level : Level) (stops : Stops level.operators rest) :
    Reads (level.chain rule bound left) [] rest n n left := by
  rw [Level.chain.eq_def]
  exact .absent stops .refl

/-- What stands alone at one level of operators stands alone at the level before. -/
theorem reads_binary_alone {p : Precedence} (opens : Opens p.tighter.opening ts)
    (operand : Reads (p.tighter.rule inner bound) ts rest n m e) (stops : Stops p.operators rest) :
    Reads ((Rank.binary p).rule inner bound) ts rest n m e := by
  have read : Reads ((Rank.binary p).rule inner bound) (ts ++ []) rest n m e :=
    reads_binary opens operand (reads_chain_done p.level stops)
  simpa using read

theorem reads_unary_alone (opens : Opens primaryKinds ts)
    (read : Reads (Grammar.call inner bound) ts rest n m e) :
    Reads (Grammar.unary inner bound) ts rest n m e := by
  rw [Grammar.unary.eq_def]
  exact .absent (opens.append.stops (by decide)) read

/-- A call that no operator follows. -/
theorem reads_operation_alone (opens : Opens primaryKinds ts)
    (read : Reads (Grammar.call inner bound) ts rest n m e)
    (stops : Stops (Precedence.disjunction.andTighter.flatMap (·.operators)) rest) :
    Reads (operation inner bound) ts rest n m e := by
  have stops (p : Precedence) : Stops p.operators rest := stops.mono (by cases p <;> decide)
  have opens (p : Precedence) : Opens p.tighter.opening ts := by
    obtain ⟨t, us, rfl, member⟩ := opens
    exact ⟨t, us, rfl, opening_primary member⟩
  have factor := reads_binary_alone (p := .factor) (opens _) (reads_unary_alone ‹_› read) (stops _)
  have comparison := reads_binary_alone (p := .comparison) (opens _)
    (reads_binary_alone (p := .term) (opens _) factor (stops _)) (stops _)
  exact reads_binary_alone (p := .disjunction) (opens _) (reads_binary_alone (p := .conjunction)
    (opens _) (reads_binary_alone (p := .equality) (opens _) comparison (stops _)) (stops _))
    (stops _)

theorem reads_suffixes_done (stops : Stops [.leftParen, .dot] rest) :
    Reads (suffixes inner bound callee) [] rest n n callee := by
  rw [suffixes.eq_def]
  exact .absent stops .refl

theorem leads_suffixes_call (isOpening : opening.kind = .leftParen)
    (read : Reads (argumentList inner bound) (ts ++ [closing]) (us ++ rest) n k (list, closing))
    (later : Leads (suffixes inner bound (.call callee closing list)) rule us rest k m) :
    Leads (suffixes inner (bound + 1) callee) rule (opening :: (ts ++ closing :: us)) rest n m := by
  rw [suffixes]
  refine .present (by simp [isOpening]) ?_
  simp only [isOpening, if_true]
  simpa using Leads.bind read later

theorem leads_suffixes_get (isDot : dot.kind = .dot) (ident : name.kind = .identifier)
    (later : Leads (suffixes inner bound (.get callee name)) rule us rest n m) :
    Leads (suffixes inner (bound + 1) callee) rule (dot :: name :: us) rest n m := by
  rw [suffixes]
  refine .present (by simp [isDot]) ?_
  simp only [isDot, reduceCtorEq, if_false]
  exact .consume ident later

theorem reads_call (callee : Reads (Grammar.primary inner) ts (us ++ rest) n k e)
    (leads : Leads (suffixes inner bound e) (suffixes inner b e') us rest k m)
    (stops : Stops [.leftParen, .dot] rest) :
    Reads (Grammar.call inner bound) (ts ++ us) rest n m e' := by
  refine .bind callee ?_
  have read : Reads (suffixes inner bound e) (us ++ []) rest k m e' :=
    leads.trans (reads_suffixes_done stops)
  simpa using read

theorem reads_name (ident : name.kind = .identifier) :
    Reads (Grammar.primary inner) [name] rest n (n + 1) (.read n name) := by
  refine .present (by simp [ident, primaryKinds]) ?_
  simp only [ident]
  exact .fresh .refl

theorem reads_assign (ident : name.kind = .identifier) (isEqual : equals.kind = .equal)
    (value : Reads inner ts rest (n + 1) m e) :
    Reads (assignment inner bound) (name :: equals :: ts) rest n (m + 1) (.assign m name e) := by
  have target : Reads (operation inner bound) [name] (equals :: ts ++ rest) n (n + 1)
      (.read n name) := by
    refine reads_operation_alone ⟨name, [], rfl, by simp [ident, primaryKinds]⟩ ?_ ?_
    · refine .bind_nil (reads_name ident) (reads_suffixes_done ?_)
      simp [isEqual]
    · simp only [List.cons_append, stops_cons, isEqual]
      decide
  show Reads _ ([name] ++ equals :: ts) rest _ _ _
  exact .bind target (.present (by simp [isEqual]) (.bind_nil value (.fresh .refl)))

theorem reads_set (object : Reads (Grammar.primary inner) ts
      (us ++ dot :: name :: equals :: vs ++ rest) n k e)
    (leads : Leads (suffixes inner bound e) (suffixes inner (b + 1) o) us
      (dot :: name :: equals :: vs ++ rest) k l)
    (opens : Opens primaryKinds ts) (isDot : dot.kind = .dot) (ident : name.kind = .identifier)
    (isEqual : equals.kind = .equal) (value : Reads inner vs rest l m e') :
    Reads (assignment inner bound) (ts ++ us ++ dot :: name :: equals :: vs) rest n m
      (.set o name e') := by
  have property : Leads (suffixes inner bound e) (suffixes inner b (.get o name))
      (us ++ [dot, name]) (equals :: vs ++ rest) k l :=
    .trans (by simpa using leads) (leads_suffixes_get isDot ident .refl)
  have call : Reads (Grammar.call inner bound) (ts ++ (us ++ [dot, name])) (equals :: vs ++ rest)
      n l (.get o name) := reads_call (by simpa using object) property (by simp [isEqual])
  have target : Reads (operation inner bound) (ts ++ (us ++ [dot, name])) (equals :: vs ++ rest)
      n l (.get o name) := by
    refine reads_operation_alone opens.append call ?_
    simp only [List.cons_append, stops_cons, isEqual]
    decide
  have whole : Reads (assignment inner bound) (ts ++ (us ++ [dot, name]) ++ equals :: vs) rest n m
      (.set o name e') := .bind target (.present (by simp [isEqual]) (.bind_nil value .refl))
  simpa using whole

end

mutual

theorem Phrase.reads : Phrase r ts n m e → ts.length ≤ b → b ≤ c → Stops r.continuing rest →
    Reads (r.rule (inside c) b) ts rest n m e
  | .assign ident isEqual value, fits, under, stops => by
    simp only [List.length_cons] at fits
    refine reads_assign ident isEqual (reads_inside (fun b fits => ?_) (by omega))
    exact value.reads fits (Nat.le_refl _) stops
  | .set (.call object suffixes) isDot ident isEqual value, fits, under, stops => by
    simp only [List.length_append, List.length_cons] at fits
    obtain ⟨d, left, leads⟩ := suffixes.leads (b := b) (by omega) under
    obtain ⟨d, rfl⟩ : ∃ d', d = d' + 1 := ⟨d - 1, by omega⟩
    have value := reads_inside (c := c)
      (fun b fits => value.reads fits (Nat.le_refl _) stops) (by omega)
    refine reads_set (object.reads (by omega) under ?_) (leads _) object.opens isDot ident isEqual
      value
    simp [Rank.continuing, Stops]
  | .operation inner, fits, under, stops =>
    .bind_nil (inner.reads fits under (stops.mono (by decide)))
      (.absent (by simpa using stops.mono (by decide)) .refl)
  | .binary operand operations, fits, under, stops => by
    simp only [List.length_append] at fits
    refine reads_binary operand.opens (operand.reads (by omega) under ?_)
      (operations.reads (by omega) (by omega) under stops)
    exact operations.stops stops
  | .unary member operand, fits, under, stops => by
    simp only [List.length_cons] at fits
    obtain ⟨d, rfl⟩ : ∃ d, b = d + 1 := ⟨b - 1, by omega⟩
    have read := operand.reads (b := d) (c := c) (by omega) (by omega) stops
    show Reads (Grammar.unary (inside c) (d + 1)) _ rest n m _
    rw [Grammar.unary]
    exact .present member (.bind_nil read .refl)
  | .plain (.call inner suffixes), fits, under, stops => by
    simp only [List.length_append] at fits
    obtain ⟨d, -, leads⟩ := suffixes.leads (b := b) (by omega) under
    refine reads_unary_alone inner.opens.append (reads_call ?_ (leads _) stops)
    exact inner.reads (by omega) under (by simp [Stops, Rank.continuing])
  | .call inner suffixes, fits, under, stops => by
    simp only [List.length_append] at fits
    obtain ⟨d, -, leads⟩ := suffixes.leads (b := b) (by omega) under
    refine reads_call ?_ (leads _) stops
    exact inner.reads (by omega) under (by simp [Stops, Rank.continuing])
  | .constant member, fits, under, stops => by
    simp only [List.mem_cons, Prod.mk.injEq, List.not_mem_nil, or_false] at member
    rcases member with ⟨kind, rfl⟩ | ⟨kind, rfl⟩ | ⟨kind, rfl⟩ <;>
    · refine .present (by simp [kind, primaryKinds]) ?_
      simp only [kind]
      exact .refl
  | .literal member, fits, under, stops => by
    simp only [List.mem_cons, List.not_mem_nil, or_false] at member
    rcases member with kind | kind <;>
    · refine .present (by simp [kind, primaryKinds]) ?_
      simp only [kind]
      exact .refl
  | .this kind, fits, under, stops => by
    refine .present (by simp [kind, primaryKinds]) ?_
    simp only [kind]
    exact .fresh .refl
  | .read kind, fits, under, stops => reads_name kind
  | .group isOpening inner isClosing, fits, under, stops => by
    simp only [List.length_cons, List.length_append] at fits
    refine .present (by simp [isOpening, primaryKinds]) ?_
    simp only [isOpening]
    refine .bind (reads_inside (fun b fits => ?_) (by omega)) (.consume isClosing .refl)
    exact inner.reads fits (Nat.le_refl _) (by simp [isClosing]; decide)

/-- The operators of a level are read by the rule that is bounded by their number. -/
theorem Operations.reads : Operations p left ts n m e → ts.length ≤ d → ts.length ≤ b → b ≤ c →
    Stops (Rank.binary p).continuing rest →
    Reads (p.level.chain (p.tighter.rule (inside c) b) d left) ts rest n m e
  | .done, _, _, _, stops => reads_chain_done p.level (stops.mono fun _ => continuing_operators)
  | .more member operand operations, fits, fitsB, under, stops => by
    simp only [List.length_cons, List.length_append] at fits fitsB
    obtain ⟨d, rfl⟩ : ∃ d', d = d' + 1 := ⟨d - 1, by omega⟩
    have right := operand.reads (b := b) (by omega) under (operations.stops stops)
    have later := operations.reads (d := d) (b := b) (by omega) (by omega) under stops
    rw [Level.chain]
    exact .present member (.bind right later)

theorem Suffixes.leads : Suffixes callee ts n m e → ts.length ≤ b → b ≤ c →
    ∃ d, b ≤ d + ts.length ∧
      ∀ rest, Leads (suffixes (inside c) b callee) (suffixes (inside c) d e) ts rest n m
  | .done, _, _ => ⟨b, by simp, fun _ => .refl⟩
  | .call isOpening list isClosing few later, fits, under => by
    simp only [List.length_cons, List.length_append] at fits
    obtain ⟨b, rfl⟩ : ∃ d, b = d + 1 := ⟨b - 1, by omega⟩
    obtain ⟨d, left, leads⟩ := later.leads (b := b) (c := c) (by omega) (by omega)
    refine ⟨d, by simp only [List.length_cons, List.length_append]; omega, fun rest => ?_⟩
    exact leads_suffixes_call isOpening (list.reads (by omega) (by omega) isClosing few) (leads rest)
  | .get isDot ident later, fits, under => by
    simp only [List.length_cons] at fits
    obtain ⟨b, rfl⟩ : ∃ d, b = d + 1 := ⟨b - 1, by omega⟩
    obtain ⟨d, left, leads⟩ := later.leads (b := b) (c := c) (by omega) (by omega)
    refine ⟨d, by simp only [List.length_cons]; omega, fun rest => ?_⟩
    exact leads_suffixes_get isDot ident (leads rest)

theorem Arguments.reads : Arguments ts n m list → ts.length ≤ b → b < c →
    closing.kind = .rightParen → list.length ≤ maxArity →
    Reads (argumentList (inside c) b) (ts ++ [closing]) rest n m (list, closing)
  | .none, fits, under, isClosing, few =>
    .seen rfl isClosing (.consume isClosing .refl)
  | .some list, fits, under, isClosing, few => by
    refine .unseen (list.opens.append.append.stops (by decide)) ?_
    refine .bind (list.reads fits under (by simpa using few) (by simp [isClosing]; decide)) ?_
    exact .consume isClosing .refl

theorem ArgumentList.reads : ArgumentList ts n m list → ts.length ≤ b → b < c →
    index + list.length ≤ maxArity → Stops (.comma :: Rank.assignment.continuing) rest →
    Reads (arguments (inside c) b index) ts rest n m list
  | .one e, fits, under, few, stops => by
    have under : ¬ maxArity ≤ index := by simp only [List.length_singleton] at few; omega
    have read := reads_inside (c := c)
      (fun b fits => e.reads fits (Nat.le_refl _) (stops.tail)) (by omega)
    rw [arguments.eq_def, if_neg under]
    exact .bind_nil read (.absent (by simpa using stops.mono (by simp)) .refl)
  | .more e isComma list, fits, under, few, stops => by
    simp only [List.length_cons, List.length_append] at fits few
    obtain ⟨b, rfl⟩ : ∃ d, b = d + 1 := ⟨b - 1, by omega⟩
    have under : ¬ maxArity ≤ index := by omega
    have later : Reads (arguments (inside c) b (index + 1)) _ rest _ m _ :=
      list.reads (by omega) (by omega) (by omega) stops
    rw [arguments.eq_def, if_neg under]
    refine .bind (reads_inside (fun b fits => ?_) (by omega))
      (.present (by simp [isComma]) (.bind_nil later .refl))
    exact e.reads fits (Nat.le_refl _) (stops_cons.2 (by rw [isComma]; decide))

end

end Lox.Grammar
