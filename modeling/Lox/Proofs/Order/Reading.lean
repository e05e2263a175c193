import Lox.Proofs.Grammar.ExpressionComplete
import Lox.Proofs.Order.Lines

/-! The order in which the reader reports errors. An error is reported at the token the reader looks at,
which is on no earlier line than all before it. Only an operator is reported late, when the operand
behind it was read, so what was reported in passing in that operand stands before it. -/
namespace Lox

/-- The errors that an expression is read on behind. -/
def SyntaxError.inPassing : SyntaxError → Bool
  | .invalidTarget | .tooManyArguments => true
  | .expected _ | .missingLeftOperand _ | .tooManyParameters => false

/-- The errors that are reported of an operator when the operand behind it was read. -/
def SyntaxError.late : SyntaxError → Bool
  | .invalidTarget | .missingLeftOperand _ => true
  | .expected _ | .tooManyParameters | .tooManyArguments => false

namespace Diagnostic

def syntaxError? : Diagnostic → Option SyntaxError
  | .syntactic _ _ e => some e
  | _ => none

def InPassing (d : Diagnostic) : Prop := d.syntaxError?.any (·.inPassing) = true

def Late (d : Diagnostic) : Prop := d.syntaxError?.any (·.late) = true

/-- The order of two errors of the reader. -/
def Precedes (d e : Diagnostic) : Prop := d.NotAfter e ∨ d.InPassing ∧ e.Late

end Diagnostic

namespace Grammar

/-- A token that was looked at, with the errors reported by then and the tokens not consumed yet. -/
structure Cursor.Passed (c : Cursor) (t : Token) : Prop where
  errors : ∀ d ∈ c.errors, ∀ line ∈ d.line?, line ≤ t.line
  tokens : ∀ u ∈ c.upcoming ++ [c.last], t.line ≤ u.line

/-- The lines of the tokens never decrease, and no error is on a later line than one of them. -/
structure Cursor.Tidy (c : Cursor) : Prop where
  tokens : Ascending (c.upcoming ++ [c.last])
  syntactic : ∀ d ∈ c.errors, ∃ line place e, d = .syntactic line place e
  behind : ∀ t ∈ c.upcoming ++ [c.last], ∀ d ∈ c.errors, ∀ line ∈ d.line?, line ≤ t.line
  errors : c.errors.Pairwise Diagnostic.Precedes

/-- Tokens were consumed, and nothing was reported but in passing. -/
structure Cursor.Advances (c c' : Cursor) : Prop where
  upcoming : c'.upcoming <:+ c.upcoming
  last : c'.last = c.last
  errors : ∃ passing, c'.errors = c.errors ++ passing ∧ ∀ d ∈ passing, d.InPassing

/-- From one place a rule comes to a tidy one. A calm rule reports only in passing, unless it gives up. -/
def Leaves (calm : Bool) (c : Cursor) : EStateM.Result Halt Cursor α → Prop
  | .ok _ c' => c'.Tidy ∧ (calm = true → c.Advances c')
  | .error _ c' => c'.Tidy

def Tidies (calm : Bool) (rule : Rule α) : Prop := ∀ c : Cursor, c.Tidy → Leaves calm c (rule c)

namespace Cursor

variable {c c' c'' : Cursor} {t : Token} {rest : List Token} {e : SyntaxError}

theorem Advances.refl (c : Cursor) : c.Advances c := ⟨List.suffix_rfl, rfl, [], by simp, by simp⟩

theorem Advances.trans (first : c.Advances c') (second : c'.Advances c'') : c.Advances c'' := by
  obtain ⟨passing, reported, calm⟩ := first.errors
  obtain ⟨passing', reported', calm'⟩ := second.errors
  refine ⟨second.upcoming.trans first.upcoming, second.last.trans first.last, passing ++ passing', ?_, ?_⟩
  · rw [reported', reported, List.append_assoc]
  · exact List.forall_mem_append.2 ⟨calm, calm'⟩

theorem Tidy.drop (tidy : c.Tidy) (left : rest <:+ c.upcoming) : { c with upcoming := rest }.Tidy := by
  have fewer : (rest ++ [c.last]).Sublist (c.upcoming ++ [c.last]) := left.sublist.append_right _
  exact { tidy with
    tokens := tidy.tokens.sublist fewer
    behind := fun t member => tidy.behind t (fewer.subset member) }

theorem Tidy.passed (tidy : c.Tidy) (next : c.upcoming = t :: rest) :
    Cursor.Passed { c with upcoming := rest } t := by
  have tokens := tidy.tokens
  rw [next, List.cons_append, Ascending, List.pairwise_cons] at tokens
  exact ⟨fun d member line => tidy.behind t (by simp [next]) d member line, tokens.1⟩

/-- What the reader looks at is passed even before it is consumed. -/
theorem Tidy.peek (tidy : c.Tidy) : c.Passed c.peek := by
  have tokens := tidy.tokens
  cases next : c.upcoming with
  | nil =>
    have last : c.peek = c.last := by simp [Cursor.peek, next]
    rw [last]
    exact ⟨fun d member line => tidy.behind c.last (by simp) d member line, by simp [next]⟩
  | cons t rest =>
    have first : c.peek = t := by simp [Cursor.peek, next]
    rw [next, List.cons_append, Ascending, List.pairwise_cons] at tokens
    rw [first]
    refine ⟨fun d member line => tidy.behind t (by simp [next]) d member line, ?_⟩
    rw [next]
    exact List.forall_mem_cons.2 ⟨Nat.le_refl _, tokens.1⟩

theorem Passed.later (passed : c.Passed t) (advances : c.Advances c') (u : Token)
    (member : u ∈ c'.upcoming ++ [c'.last]) : t.line ≤ u.line := by
  rw [advances.last] at member
  have fewer := advances.upcoming.sublist.append_right [c.last]
  exact passed.tokens u (fewer.subset member)

/-- An error at a passed token is in order, if what was reported since is in passing and it is late. -/
theorem Tidy.report (tidy : c'.Tidy) (passed : c.Passed t) (advances : c.Advances c')
    (fits : c'.errors = c.errors ∨ e.late = true) :
    Cursor.Tidy { c' with errors := c'.errors ++ [.syntactic t.line t.place e] } := by
  constructor
  · exact tidy.tokens
  · refine List.forall_mem_append.2 ⟨tidy.syntactic, fun d here => ?_⟩
    exact ⟨_, _, _, List.mem_singleton.1 here⟩
  · refine fun u member => List.forall_mem_append.2 ⟨tidy.behind u member, fun d here line same => ?_⟩
    obtain rfl := List.mem_singleton.1 here
    cases same
    exact passed.later advances u member
  · refine List.pairwise_append.2 ⟨tidy.errors, List.pairwise_singleton _ _, fun d before e' here => ?_⟩
    obtain rfl := List.mem_singleton.1 here
    have first (old : d ∈ c.errors) :
        d.Precedes (Diagnostic.syntactic t.line t.place e) := by
      refine .inl fun k told l same => ?_
      cases same
      exact passed.errors d old k told
    rcases fits with none | late
    · exact first (none ▸ before)
    · obtain ⟨passing, reported, calm⟩ := advances.errors
      rcases List.mem_append.1 (reported ▸ before) with old | since
      · exact first old
      · exact .inr ⟨calm d since, late⟩

end Cursor

namespace Leaves

variable {calm quiet : Bool} {c c' : Cursor}

theorem since {r : EStateM.Result Halt Cursor α} (leaves : Leaves calm c' r)
    (advances : calm = true → c.Advances c') : Leaves calm c r := by
  cases r with
  | ok a c'' => exact ⟨leaves.1, fun rule => (advances rule).trans (leaves.2 rule)⟩
  | error halt c'' => exact leaves

theorem bind {x : Rule α} {f : α → Rule β} (first : Leaves quiet c (x c))
    (narrow : calm = true → quiet = true)
    (second : ∀ a c', c'.Tidy → (quiet = true → c.Advances c') → Leaves calm c' (f a c')) :
    Leaves calm c ((x >>= f) c) := by
  rw [bind_apply]
  cases ran : x c with
  | ok a c' =>
    rw [ran] at first
    exact (second a c' first.1 first.2).since fun rule => first.2 (narrow rule)
  | error halt c' =>
    rw [ran] at first
    exact first

end Leaves

namespace Tidies

variable {calm : Bool} {e : SyntaxError}

theorem weaken {x : Rule α} (tidies : Tidies true x) : Tidies calm x := by
  intro c tidy
  have leaves := tidies c tidy
  generalize x c = r at leaves ⊢
  cases r with
  | ok a c' => exact ⟨leaves.1, fun _ => leaves.2 rfl⟩
  | error halt c' => exact leaves

theorem pure : Tidies calm (pure a) := fun c tidy => ⟨tidy, fun _ => .refl c⟩

theorem throw : Tidies calm (throw halt : Rule α) := fun _ tidy => tidy

theorem bind {x : Rule α} {f : α → Rule β} (first : Tidies calm x)
    (second : ∀ a, Tidies calm (f a)) : Tidies calm (x >>= f) := fun c tidy =>
  .bind (first c tidy) id fun a c' tidy' _ => second a c' tidy'

theorem map {x : Rule α} {g : α → β} (tidies : Tidies calm x) : Tidies calm (g <$> x) :=
  have pairs : Tidies calm (x >>= fun a => Pure.pure (g a)) := .bind tidies fun _ => .pure
  pairs

theorem get {f : Cursor → Rule β} (second : ∀ c, Tidies calm (f c)) : Tidies calm (get >>= f) :=
  fun c tidy => second c c tidy

theorem atEnd {f : Bool → Rule β} (second : ∀ b, Tidies calm (f b)) : Tidies calm (atEnd >>= f) :=
  fun c tidy => second _ c tidy

theorem sees {f : Bool → Rule β} (second : ∀ b, Tidies calm (f b)) :
    Tidies calm (sees kind >>= f) := fun c tidy => second _ c tidy

theorem fresh {f : Occurrence → Rule β} (second : ∀ i, Tidies calm (f i)) :
    Tidies calm (freshOccurrence >>= f) := by
  intro c tidy
  have leaves := second c.fresh { c with fresh := c.fresh + 1 } { tidy with }
  exact leaves.since fun _ => ⟨List.suffix_rfl, rfl, [], by simp, by simp⟩

/-- Behind a report at the token that is looked at. -/
theorem reportHere {f : Unit → Rule β} (passing : calm = true → e.inPassing = true)
    (second : Tidies calm (f ())) :
    Tidies calm (do let c ← MonadState.get; let r ← report (Cursor.peek c) e; f r) := by
  intro c tidy
  have reported := tidy.report tidy.peek (.refl c) (e := e) (.inl rfl)
  refine (second _ reported).since fun rule => ⟨List.suffix_rfl, rfl, [_], rfl, ?_⟩
  simpa [Diagnostic.InPassing, Diagnostic.syntaxError?] using passing rule

theorem failHere : Tidies calm (do fail (← MonadState.get).peek e : Rule α) := fun c tidy =>
  tidy.report tidy.peek (.refl c) (.inl rfl)

theorem limited {beyond : Prop} [Decidable beyond] {f : Unit → Rule β}
    (passing : calm = true → e.inPassing = true) (second : Tidies calm (f ())) :
    Tidies calm
      (if beyond then do
          let c ← MonadState.get
          let r ← report (Cursor.peek c) e
          f r
        else f ()) := by
  split
  · exact .reportHere passing second
  · exact second

/-- The rule behind a token may depend on where the token was passed. -/
theorem accept?At {f : Option Token → Rule β} (absent : Tidies calm (f none))
    (present : ∀ t c, t.kind ∈ kinds → Cursor.Tidy c → c.Passed t → Leaves calm c (f (some t) c)) :
    Tidies calm (accept? kinds >>= f) := by
  intro c tidy
  rw [bind_apply]
  rcases accept?_cases kinds c with ⟨ran, -⟩ | ⟨t, rest, next, member, ran⟩ <;> rw [ran]
  · exact absent c tidy
  · have behind : rest <:+ c.upcoming := next ▸ List.suffix_cons t rest
    refine (present t _ member (tidy.drop behind) (tidy.passed next)).since fun _ => ?_
    exact ⟨behind, rfl, [], by simp, by simp⟩

theorem accept? {f : Option Token → Rule β} (absent : Tidies calm (f none))
    (present : ∀ t, t.kind ∈ kinds → Tidies calm (f (some t))) :
    Tidies calm (accept? kinds >>= f) :=
  .accept?At absent fun t c member tidy _ => present t member c tidy

theorem consume {f : Token → Rule β} (second : ∀ t, Tidies calm (f t)) :
    Tidies calm (consume kind expected >>= f) :=
  .bind (.accept? .failHere fun _ _ => .pure) second

end Tidies

section

variable {rule : Rule Expr} (calm : Tidies true rule)
include calm

theorem tidies_chain (level : Level) (bound : Nat) (left : Expr) :
    Tidies true (level.chain rule bound left) := by
  induction bound generalizing left with
  | zero =>
    rw [Level.chain]
    exact .accept? .pure fun _ _ => .throw
  | succ bound ih =>
    rw [Level.chain]
    exact .accept? .pure fun operator _ => .bind calm fun right => ih _

/-- The operator is reported late. -/
theorem tidies_refuseLeading (level : Level) : Tidies true (level.refuseLeading rule) := by
  refine .accept?At .pure fun operator c _ tidy passed => ?_
  refine .bind (calm c tidy) id fun _ c' tidy' advances => ?_
  exact tidy'.report passed (advances rfl) (e := .missingLeftOperand operator.lexeme) (.inr rfl)

theorem tidies_level (level : Level) (bound : Nat) : Tidies true (level.rule bound rule) :=
  .bind (tidies_refuseLeading calm level) fun _ =>
    .bind calm fun left => tidies_chain calm level bound left

theorem tidies_primary : Tidies true (primary rule) := by
  refine .accept? .failHere fun t _ => ?_
  dsimp only
  split
  · exact .pure
  · exact .pure
  · exact .pure
  · exact .fresh fun i => .pure
  · exact .fresh fun i => .pure
  · exact .bind calm fun inner => .consume fun _ => .pure
  · exact .pure

theorem tidies_arguments (bound index : Nat) : Tidies true (arguments rule bound index) := by
  induction bound generalizing index with
  | zero =>
    rw [arguments]
    exact .limited (fun _ => rfl) (.bind calm fun e => .accept? .pure fun _ _ => .throw)
  | succ bound ih =>
    rw [arguments]
    refine .limited (fun _ => rfl) (.bind calm fun e => .accept? .pure fun _ _ => ?_)
    exact .bind (ih _) fun list => .pure

theorem tidies_argumentList (bound : Nat) : Tidies true (argumentList rule bound) := by
  refine .sees fun empty => ?_
  cases empty with
  | true => exact .bind .pure fun list => .consume fun _ => .pure
  | false => exact .bind (tidies_arguments calm bound 0) fun list => .consume fun _ => .pure

theorem tidies_suffixes (bound : Nat) (callee : Expr) : Tidies true (suffixes rule bound callee) := by
  induction bound generalizing callee with
  | zero =>
    rw [suffixes]
    exact .accept? .pure fun _ _ => .throw
  | succ bound ih =>
    rw [suffixes]
    refine .accept? .pure fun t _ => ?_
    dsimp only
    split
    · exact .bind (tidies_argumentList calm bound) fun _ => ih _
    · exact .consume fun _ => ih _

theorem tidies_call (bound : Nat) : Tidies true (call rule bound) :=
  .bind (tidies_primary calm) fun callee => tidies_suffixes calm bound callee

theorem tidies_unary (bound : Nat) : Tidies true (unary rule bound) := by
  induction bound with
  | zero =>
    rw [unary]
    exact .accept? (tidies_call calm 0) fun _ _ => .throw
  | succ bound ih =>
    rw [unary]
    exact .accept? (tidies_call calm _) fun _ _ => .bind ih fun _ => .pure

theorem tidies_operation (bound : Nat) : Tidies true (operation rule bound) := by
  have from_levels (list : List Level) :
      Tidies true (list.foldr (Level.rule bound) (unary rule bound)) := by
    induction list with
    | nil => exact tidies_unary calm bound
    | cons level rest ih => exact tidies_level ih level bound
  exact from_levels levels

/-- The target is known when the equals sign is seen, but reported when the value is read. -/
theorem tidies_assignment (bound : Nat) : Tidies true (assignment rule bound) := by
  refine .bind (tidies_operation calm bound) fun target => ?_
  refine .accept?At .pure fun equals c _ tidy passed => ?_
  refine .bind (calm c tidy) id fun value c' tidy' advances => ?_
  split
  · exact Tidies.fresh (fun i => .pure) c' tidy'
  · exact Tidies.pure c' tidy'
  · have reported := tidy'.report passed (advances rfl) (e := .invalidTarget) (.inr rfl)
    exact ⟨reported, fun _ => ⟨List.suffix_rfl, rfl, [_], rfl, by
      simp [Diagnostic.InPassing, Diagnostic.syntaxError?, SyntaxError.inPassing]⟩⟩

end

theorem tidies_expression (bound : Nat) : Tidies true (expression bound) := by
  induction bound with
  | zero => exact tidies_assignment .throw 0
  | succ bound ih => exact tidies_assignment ih (bound + 1)

end Grammar

end Lox
