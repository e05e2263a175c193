import Lox.Proofs.Grammar.Rule

/-! Two readers at one place, with different histories. What a rule does depends on the tokens that are
left, and neither on what was reported before them nor on the identities in use. `Accord` has one law for
every way rules are put together, and the rules of the grammar accord with themselves. -/
namespace Lox

/-- Whether an expression can be assigned to. Nothing else about what was read decides how reading goes
on. -/
def Expr.isTarget : Expr → Bool
  | .read _ _ | .get _ _ => true
  | _ => false

namespace Grammar

section

variable (E F : List Diagnostic)

/-- The same tokens are left, and behind two histories the same was reported. -/
inductive Beside : Cursor → Cursor → Prop where
  | intro : Beside ⟨ts, last, E ++ more, n⟩ ⟨ts, last, F ++ more, m⟩

/-- Both rules succeed, with results that `V` relates, or both give up for one reason. -/
inductive Akin (V : α → α → Prop) :
    EStateM.Result Halt Cursor α → EStateM.Result Halt Cursor α → Prop where
  | ok : V a a' → Beside E F c c' → Akin V (.ok a c) (.ok a' c')
  | error : Beside E F c c' → Akin V (.error halt c) (.error halt c')

def Accord (V : α → α → Prop) (x x' : Rule α) : Prop :=
  ∀ ⦃c c' : Cursor⦄, Beside E F c c' → Akin E F V (x c) (x' c')

/-- What was read does not matter. -/
abbrev Unseen (_ _ : α) : Prop := True

/-- The rule does the same behind both histories. -/
abbrev Steady (x : Rule α) : Prop := Accord E F Unseen x x

/-- So does the rule for an expression, and both can be assigned to or neither. -/
abbrev SteadyExpr (x : Rule Expr) : Prop :=
  Accord E F (fun e e' => e.isTarget = e'.isTarget) x x

end

variable {E F : List Diagnostic} {V : α → α → Prop} {W : β → β → Prop}

namespace Beside

variable {c c' : Cursor}

theorem upcoming_eq (beside : Beside E F c c') : c.upcoming = c'.upcoming := by
  cases beside
  rfl

theorem last_eq (beside : Beside E F c c') : c.last = c'.last := by
  cases beside
  rfl

theorem peek_eq (beside : Beside E F c c') : c.peek = c'.peek := by
  rw [Cursor.peek, Cursor.peek, beside.upcoming_eq, beside.last_eq]

theorem sees_eq (beside : Beside E F c c') (kind : TokenKind) : c.sees kind = c'.sees kind := by
  rw [Cursor.sees, Cursor.sees, beside.upcoming_eq]

end Beside

theorem Akin.bind {x x' : Rule α} {f f' : α → Rule β} {c c' : Cursor} (first : Akin E F V (x c) (x' c'))
    (second : ∀ a a', V a a' → Accord E F W (f a) (f' a')) :
    Akin E F W ((x >>= f) c) ((x' >>= f') c') := by
  rw [bind_apply, bind_apply]
  generalize x c = r, x' c' = r' at first ⊢
  cases first with
  | ok related beside => exact second _ _ related beside
  | error beside => exact .error beside

namespace Accord

theorem pure (related : V a a') : Accord E F V (pure a) (pure a') := fun _ _ beside => .ok related beside

theorem throw : Accord E F V (throw halt) (throw halt) := fun _ _ beside => .error beside

theorem bind {x x' : Rule α} {f f' : α → Rule β} (first : Accord E F V x x')
    (second : ∀ a a', V a a' → Accord E F W (f a) (f' a')) :
    Accord E F W (x >>= f) (x' >>= f') := fun _ _ beside => (first beside).bind second

theorem map {x x' : Rule α} {g g' : α → β} (first : Accord E F V x x') :
    Accord E F Unseen (g <$> x) (g' <$> x') := by
  intro c c' beside
  rw [map_apply, map_apply]
  have akin := first beside
  generalize x c = r, x' c' = r' at akin ⊢
  cases akin with
  | ok _ later => exact .ok trivial later
  | error later => exact .error later

theorem get {f f' : Cursor → Rule β} (second : ∀ c c', Beside E F c c' → Accord E F W (f c) (f' c')) :
    Accord E F W (get >>= f) (get >>= f') := fun c c' beside => second c c' beside beside

theorem atEnd {f f' : Bool → Rule β} (second : ∀ b, Accord E F W (f b) (f' b)) :
    Accord E F W (atEnd >>= f) (atEnd >>= f') := by
  intro c c' beside
  show Akin E F W (f c.upcoming.isEmpty c) (f' c'.upcoming.isEmpty c')
  rw [beside.upcoming_eq]
  exact second _ beside

theorem sees {f f' : Bool → Rule β} (second : ∀ b, Accord E F W (f b) (f' b)) :
    Accord E F W (sees kind >>= f) (sees kind >>= f') := by
  intro c c' beside
  show Akin E F W (f (c.sees kind) c) (f' (c'.sees kind) c')
  rw [beside.sees_eq]
  exact second _ beside

theorem accept? {f f' : Option Token → Rule β} (second : ∀ o, Accord E F W (f o) (f' o)) :
    Accord E F W (accept? kinds >>= f) (accept? kinds >>= f') := by
  intro c c' beside
  rw [bind_apply, bind_apply]
  obtain ⟨⟩ := beside
  next ts last more n m =>
    cases ts with
    | nil => exact second none .intro
    | cons t rest =>
      simp only [Grammar.accept?]
      by_cases member : t.kind ∈ kinds
      · simp only [if_pos member]
        exact second (some t) .intro
      · simp only [if_neg member]
        exact second none .intro

theorem report {f f' : Unit → Rule β} (second : Accord E F W (f ()) (f' ())) :
    Accord E F W (report t e >>= f) (report t e >>= f') := by
  intro c c' beside
  obtain ⟨⟩ := beside
  next ts last more n m =>
    have beside (d : Diagnostic) :
        Beside E F ⟨ts, last, E ++ more ++ [d], n⟩ ⟨ts, last, F ++ more ++ [d], m⟩ := by
      rw [List.append_assoc, List.append_assoc]
      exact .intro
    exact second (beside _)

theorem fail : Accord E F V (fail t e) (fail t e) := .report .throw

theorem fresh {f f' : Occurrence → Rule β} (second : ∀ i i', Accord E F W (f i) (f' i')) :
    Accord E F W (freshOccurrence >>= f) (freshOccurrence >>= f') := by
  intro c c' beside
  obtain ⟨⟩ := beside
  exact second _ _ .intro

theorem failHere : Accord E F V (do Grammar.fail (← MonadState.get).peek e : Rule α)
    (do Grammar.fail (← MonadState.get).peek e) := by
  refine .get fun c c' beside => ?_
  rw [beside.peek_eq]
  exact .fail

theorem consume {f f' : Token → Rule β} (second : ∀ t, Accord E F W (f t) (f' t)) :
    Accord E F W (consume kind expected >>= f) (consume kind expected >>= f') := by
  have token : Accord E F Eq (Grammar.consume kind expected) (Grammar.consume kind expected) := by
    refine .accept? fun o => ?_
    cases o with
    | none => exact .failHere
    | some t => exact .pure rfl
  refine .bind token fun t t' same => ?_
  rw [same]
  exact second t'

/-- What is over a limit is reported behind both histories. -/
theorem limited {beyond : Prop} [Decidable beyond] {f f' : Unit → Rule β}
    (second : Accord E F W (f ()) (f' ())) :
    Accord E F W
      (if beyond then do
          let c ← MonadState.get
          let r ← Grammar.report (Cursor.peek c) e
          f r
        else f ())
      (if beyond then do
          let c ← MonadState.get
          let r ← Grammar.report (Cursor.peek c) e
          f' r
        else f' ()) := by
  split
  · refine .get fun c c' beside => ?_
    rw [beside.peek_eq]
    exact .report second
  · exact second

end Accord

/-- What an assignment comes to when target and value are read. -/
def settled (equals : Token) (target value : Expr) : Rule Expr :=
  match target with
  | .read _ name => return .assign (← freshOccurrence) name value
  | .get object name => return .set object name value
  | target => do
    report equals .invalidTarget
    return target

theorem assignment_eq (rule : Rule Expr) (bound : Nat) : assignment rule bound =
    (do
      let target ← operation rule bound
      match ← accept? [.equal] with
      | none => return target
      | some equals => settled equals target (← rule)) := rfl

theorem settled_target {target : Expr} (isTarget : target.isTarget = true) (equals : Token)
    (value : Expr) (n : Occurrence) : ∃ e m, e.isTarget = false ∧ ∀ ts last errors,
      settled equals target value ⟨ts, last, errors, n⟩ = .ok e ⟨ts, last, errors, m⟩ := by
  cases target with
  | read id name => exact ⟨.assign n name value, n + 1, rfl, fun _ _ _ => rfl⟩
  | get object name => exact ⟨.set object name value, n, rfl, fun _ _ _ => rfl⟩
  | _ => cases isTarget

theorem settled_other {target : Expr} (other : target.isTarget = false) (equals : Token)
    (value : Expr) : settled equals target value = do
      report equals .invalidTarget
      return target := by
  cases target with
  | read | get => cases other
  | _ => rfl

theorem steady_settled {target target' value value' : Expr} (same : target.isTarget = target'.isTarget) :
    Accord E F (fun e e' => e.isTarget = e'.isTarget) (settled equals target value)
      (settled equals target' value') := by
  cases isTarget : target.isTarget with
  | false =>
    rw [settled_other isTarget, settled_other (same ▸ isTarget)]
    exact .report (.pure same)
  | true =>
    rintro _ _ ⟨⟩
    next n m =>
      obtain ⟨e, _, other, ran⟩ := settled_target isTarget equals value n
      obtain ⟨e', _, other', ran'⟩ := settled_target (same ▸ isTarget) equals value' m
      rw [ran, ran']
      exact .ok (other.trans other'.symm) .intro

section

variable {rule : Rule Expr} (steady : SteadyExpr E F rule)
include steady

theorem steady_chain {level : Level} (nodes : ∀ l o r, (level.node l o r).isTarget = false)
    (bound : Nat) {left left' : Expr} (same : left.isTarget = left'.isTarget) :
    Accord E F (fun e e' => e.isTarget = e'.isTarget) (level.chain rule bound left)
      (level.chain rule bound left') := by
  induction bound generalizing left left' with
  | zero =>
    rw [Level.chain, Level.chain]
    refine .accept? fun o => ?_
    cases o with
    | none => exact .pure same
    | some operator => exact .throw
  | succ bound ih =>
    rw [Level.chain, Level.chain]
    refine .accept? fun o => ?_
    cases o with
    | none => exact .pure same
    | some operator =>
      exact .bind steady fun right right' _ => ih (by rw [nodes, nodes])

theorem steady_level {level : Level} (nodes : ∀ l o r, (level.node l o r).isTarget = false)
    (bound : Nat) : SteadyExpr E F (level.rule bound rule) := by
  have refused : Steady E F (level.refuseLeading rule) := by
    refine .accept? fun o => ?_
    cases o with
    | none => exact .pure trivial
    | some operator => exact .bind steady fun _ _ _ => .fail
  refine .bind refused fun _ _ _ => .bind steady fun left left' same => ?_
  exact steady_chain steady nodes bound same

theorem steady_primary : SteadyExpr E F (primary rule) := by
  refine .accept? fun o => ?_
  cases o with
  | none => exact .failHere
  | some t =>
    dsimp only
    split
    · exact .pure rfl
    · exact .pure rfl
    · exact .pure rfl
    · exact .fresh fun i i' => .pure rfl
    · exact .fresh fun i i' => .pure rfl
    · exact .bind steady fun inner inner' _ => .consume fun _ => .pure rfl
    · exact .pure rfl

theorem steady_arguments (bound index : Nat) : Steady E F (arguments rule bound index) := by
  induction bound generalizing index with
  | zero =>
    rw [arguments]
    refine .limited (.bind steady fun e e' _ => .accept? fun o => ?_)
    cases o with
    | none => exact .pure trivial
    | some _ => exact .throw
  | succ bound ih =>
    rw [arguments]
    refine .limited (.bind steady fun e e' _ => .accept? fun o => ?_)
    cases o with
    | none => exact .pure trivial
    | some _ => exact .bind (ih _) fun _ _ _ => .pure trivial

theorem steady_argumentList (bound : Nat) : Steady E F (argumentList rule bound) := by
  refine .sees fun empty => ?_
  cases empty with
  | true => exact .bind (V := Unseen) (.pure trivial) fun _ _ _ => .consume fun _ => .pure trivial
  | false => exact .bind (steady_arguments steady bound 0) fun _ _ _ => .consume fun _ => .pure trivial

theorem steady_suffixes (bound : Nat) {callee callee' : Expr}
    (same : callee.isTarget = callee'.isTarget) :
    Accord E F (fun e e' => e.isTarget = e'.isTarget) (suffixes rule bound callee)
      (suffixes rule bound callee') := by
  induction bound generalizing callee callee' with
  | zero =>
    rw [suffixes, suffixes]
    refine .accept? fun o => ?_
    cases o with
    | none => exact .pure same
    | some t => exact .throw
  | succ bound ih =>
    rw [suffixes, suffixes]
    refine .accept? fun o => ?_
    cases o with
    | none => exact .pure same
    | some t =>
      dsimp only
      split
      · exact .bind (steady_argumentList steady bound) fun _ _ _ => ih rfl
      · exact .consume fun _ => ih rfl

theorem steady_call (bound : Nat) : SteadyExpr E F (call rule bound) :=
  .bind (steady_primary steady) fun _ _ same => steady_suffixes steady bound same

theorem steady_unary (bound : Nat) : SteadyExpr E F (unary rule bound) := by
  induction bound with
  | zero =>
    rw [unary]
    refine .accept? fun o => ?_
    cases o with
    | none => exact steady_call steady 0
    | some operator => exact .throw
  | succ bound ih =>
    rw [unary]
    refine .accept? fun o => ?_
    cases o with
    | none => exact steady_call steady _
    | some operator => exact .bind ih fun _ _ _ => .pure rfl

theorem steady_operation (bound : Nat) : SteadyExpr E F (operation rule bound) := by
  have from_levels (list : List Level)
      (nodes : ∀ level ∈ list, ∀ l o r, (level.node l o r).isTarget = false) :
      SteadyExpr E F (list.foldr (Level.rule bound) (unary rule bound)) := by
    induction list with
    | nil => exact steady_unary steady bound
    | cons level rest ih =>
      have tighter := ih fun level member => nodes level (.tail _ member)
      exact steady_level tighter (nodes level (.head _)) bound
  refine from_levels levels fun level member l o r => ?_
  simp only [levels, List.mem_cons, List.not_mem_nil, or_false] at member
  rcases member with rfl | rfl | rfl | rfl | rfl | rfl <;> rfl

/-- A target that cannot be assigned to is reported behind both histories or behind none. -/
theorem steady_assignment (bound : Nat) : SteadyExpr E F (assignment rule bound) := by
  rw [assignment_eq]
  refine .bind (steady_operation steady bound) fun target target' same => .accept? fun o => ?_
  cases o with
  | none => exact .pure same
  | some equals => exact .bind steady fun value value' _ => steady_settled same

end

end Grammar

end Lox
