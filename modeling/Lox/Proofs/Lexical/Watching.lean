import Lox.Proofs.Lexical.Units
import Lox.Proofs.Scoping.Trace

/-! Not only where a unit begins and ends do the two stores of a run match: they do so wherever a
statement begins on the way, in a world in which its place and the references in it are known. -/
namespace Lox

open Points (following mem_following)

namespace Lexical

/-- Where a statement begins, the machine is matched by one under lexical scope. -/
structure Faced (s : Stmt) (m : Lox.Machine) (w : World) (here : Surroundings) (e : Environment)
    (r : Machine) : Prop where
  placed : s.Placed
  located : Located w here m.current e
  settled : Settled w (s.findings here)
  matched : Matches w m.current m r

def Watched (points : List Point) : Prop :=
  ∀ s m, ⟨.execute s, m⟩ ∈ points → ∃ w here e r, Faced s m w here e r

namespace Watched

variable {w : World} {current : ScopeId} {changing : List ScopeId} {m : Lox.Machine} {r : Machine}
  {first second : List Point}

theorem none : Watched [] := fun _ _ member => nomatch member

theorem append (left : Watched first) (right : Watched second) : Watched (first ++ second) :=
  fun s m member => (List.mem_append.1 member).elim (left s m) (right s m)

theorem visit {doing : Doing} (other : ∀ s, doing ≠ .execute s) (watched : Watched first) :
    Watched (⟨doing, m⟩ :: first) := by
  intro s k member
  rcases List.mem_cons.1 member with same | later
  · cases same
    exact absurd rfl (other s)
  · exact watched s k later

theorem face {s : Stmt} {here : Surroundings} {e : Environment} (placed : s.Placed)
    (located : Located w here current e) (settled : Settled w (s.findings here))
    (matched : Matches w current m r) (watched : Watched first) :
    Watched (⟨.execute s, m⟩ :: first) := by
  intro t k member
  rcases List.mem_cons.1 member with same | later
  · cases same
    obtain rfl := matched.current
    exact ⟨w, here, e, r, placed, located, settled, matched⟩
  · exact watched t k later

/-- What follows an action begins where the action and its counterpart have led. -/
theorem following {x : Lox.Run α} {y : Run β} {P : World → α → β → Prop} {then' : α → Points}
    (agrees : Agrees w current changing x y P) (matched : Matches w current m r)
    (later : ∀ v a b k l, w.Grows changing v → P v a b → Matches v current k l →
      Watched (then' a k)) : Watched (Points.following x then' m) := by
  intro s k member
  obtain ⟨a, l, ran, inside⟩ := mem_following.1 member
  rcases (agrees m r matched).cases with ⟨_, _, b, _, v, left, -, grows, after, holds⟩ |
    ⟨_, _, _, _, _, left, -⟩
  · rw [ran] at left
    cases left
    exact later v a b l _ grows holds after s k inside
  · rw [ran] at left
    cases left

theorem rounds {condition : Lox.Run Value} {condition' : Run (Value Environment)}
    {body : Lox.Run Unit} {body' : Run Unit} {testing doing : Points} {I : World → Prop}
    (holds : I w) (matched : Matches w current m r)
    (tested : ∀ v, I v → Agrees v current [] condition condition' fun u a b => I u ∧ Alike u a b)
    (round : ∀ v, I v → Agrees v current changing body body' fun u _ _ => I u)
    (test : ∀ v k l, I v → Matches v current k l → Watched (testing k))
    (inner : ∀ v k l, I v → Matches v current k l → Watched (doing k)) (bound : Nat) :
    Watched (Points.rounds condition body testing doing bound m) := by
  induction bound generalizing w m r with
  | zero => exact none
  | succ bound ih =>
    rw [Points.rounds]
    refine (test w m r holds matched).append ?_
    refine .following (tested w holds) matched fun v a b k l _ both after => ?_
    split
    · refine (inner v k l both.1 after).append ?_
      exact .following (round v both.1) after fun u _ _ i j _ kept => ih kept
    · exact none

end Watched

/-- A new scope has no counterpart. -/
theorem newScope_agrees {w : World} {current i : ScopeId}
    (known : i = globals ∨ (w.outer i).isSome) :
    Agrees w current [] (Lox.Run.newScope i) (pure ()) fun v scope _ =>
      v.outer scope = some i ∧ ∀ name, v.cell scope name = none := by
  rw [← bind_pure (Lox.Run.newScope i)]
  exact .newScope known fun v scope _ linked new => .pure ⟨linked, new⟩

/-- Inside calls of values that stand for each other all statements are watched. -/
def CallPointsWatched (inside : CallPoints) : Prop :=
  ∀ {w current callee callee' arguments arguments' m r} (line : Nat), Alike w callee callee' →
    List.Forall₂ (Alike w) arguments arguments' → Matches w current m r →
    Watched (inside callee arguments line m)

section

variable {call : Lox.Caller} {call' : Caller} {inside : CallPoints}

mutual

theorem points_watched (callers : CallersAgree call call') (called : CallPointsWatched inside)
    {w : World} {current : ScopeId} {here : Surroundings} {env : Environment} {m : Lox.Machine}
    {r : Machine} : (e : Expr) → Mirrors w here.scopes current env → Settled w (e.findings here) →
      Matches w current m r → Watched (e.points call inside m)
  | .constant _, _, _, _ | .read _ _, _, _, _ | .this _ _, _, _, _ => by
    rw [Expr.points]
    exact .visit (by simp) .none
  | .group part, mirrors, settled, matched | .unary _ part, mirrors, settled, matched
  | .get part _, mirrors, settled, matched => by
    rw [Expr.findings] at settled
    rw [Expr.points]
    exact .visit (by simp) (points_watched callers called part mirrors settled matched)
  | .assign _ _ part, mirrors, settled, matched => by
    rw [Expr.findings] at settled
    rw [Expr.points]
    exact .visit (by simp) (points_watched callers called part mirrors settled.left matched)
  | .binary left operator right, mirrors, settled, matched => by
    rw [Expr.findings] at settled
    rw [Expr.points]
    refine .visit (by simp) ((points_watched callers called left mirrors settled.left matched).append ?_)
    refine .following (evaluate_agrees callers left mirrors settled.left) matched ?_
    intro v a b k l grows _ after
    exact points_watched callers called right (mirrors.mono grows.le) (settled.right.mono grows.le) after
  | .logical left operator right, mirrors, settled, matched => by
    rw [Expr.findings] at settled
    rw [Expr.points]
    refine .visit (by simp) ((points_watched callers called left mirrors settled.left matched).append ?_)
    refine .following (evaluate_agrees callers left mirrors settled.left) matched ?_
    intro v a b k l grows _ after
    split
    · exact .none
    · exact points_watched callers called right (mirrors.mono grows.le) (settled.right.mono grows.le)
        after
  | .call callee closing arguments, mirrors, settled, matched => by
    rw [Expr.findings] at settled
    rw [Expr.points]
    refine .visit (by simp)
      ((points_watched callers called callee mirrors settled.left matched).append ?_)
    refine .following (evaluate_agrees callers callee mirrors settled.left) matched ?_
    intro v a b k l grows alike after
    have there := mirrors.mono grows.le
    have known := settled.right.mono grows.le
    refine (allPoints_watched callers called arguments there known after).append ?_
    refine .following (evaluateAll_agrees callers arguments there known) after ?_
    intro u list list' i j further all last
    exact called closing.line (alike.mono further.le) all last
  | .set object name value, mirrors, settled, matched => by
    rw [Expr.findings] at settled
    rw [Expr.points]
    refine .visit (by simp)
      ((points_watched callers called object mirrors settled.right matched).append ?_)
    refine .following (evaluate_agrees callers object mirrors settled.right) matched ?_
    intro v a b k l grows alike after
    cases alike with
    | object class' =>
      exact points_watched callers called value (mirrors.mono grows.le) (settled.left.mono grows.le)
        after
    | _ => exact .none

theorem allPoints_watched (callers : CallersAgree call call') (called : CallPointsWatched inside)
    {w : World} {current : ScopeId} {here : Surroundings} {env : Environment} {m : Lox.Machine}
    {r : Machine} : (list : List Expr) → Mirrors w here.scopes current env →
      Settled w (Expr.allFindings here list) → Matches w current m r →
      Watched (Expr.allPoints call inside list m)
  | [], _, _, _ => by
    rw [Expr.allPoints]
    exact .none
  | e :: rest, mirrors, settled, matched => by
    rw [Expr.allFindings] at settled
    rw [Expr.allPoints]
    refine (points_watched callers called e mirrors settled.left matched).append ?_
    refine .following (evaluate_agrees callers e mirrors settled.left) matched ?_
    intro v a b k l grows _ after
    exact allPoints_watched callers called rest (mirrors.mono grows.le) (settled.right.mono grows.le)
      after

end

theorem optionPoints_watched (callers : CallersAgree call call') (called : CallPointsWatched inside)
    {w : World} {current : ScopeId} {here : Surroundings} {env : Environment} {m : Lox.Machine}
    {r : Machine} {value : Option Expr} (mirrors : Mirrors w here.scopes current env)
    (settled : ∀ e ∈ value, Settled w (e.findings here)) (matched : Matches w current m r) :
    Watched (Expr.optionPoints call inside value m) := by
  cases value with
  | none => exact .none
  | some e => exact points_watched callers called e mirrors (settled e rfl) matched

/-- The initializer of a declaration is evaluated where its name is declared already. -/
theorem declaring_faced {w : World} {current : ScopeId} {here : Surroundings} {env : Environment}
    {m : Lox.Machine} {r : Machine} {name : Token} (located : Located w here current env)
    (free : here.holds name = false) (matched : Matches w current m r) : ∃ v inside r', w ≤ v ∧
      Mirrors v (here.declare name).scopes current inside ∧ Matches v current m r' := by
  rw [Surroundings.declare, if_neg (by simp [free])]
  by_cases top : here.scopes = []
  · refine ⟨w, env, r, World.le_refl w, ?_, matched⟩
    rw [hold_eq_of_top top]
    exact located.mirrors
  · have new := located.cell_none top free
    exact ⟨_, _, _, (World.grows_withCell new).le, (located.hold top free .pending).mirrors,
      matched.newCell (located.outer_isSome top) new⟩

variable (bound : Nat)

mutual

theorem statementPoints_watched (callers : CallersAgree call call')
    (called : CallPointsWatched inside) {w : World} {current : ScopeId} {here : Surroundings}
    {env : Environment} {m : Lox.Machine} {r : Machine} :
    (s : Stmt) → s.Placed → Located w here current env → Settled w (s.findings here) →
      Matches w current m r → Watched (s.points call inside bound m)
  | .expression value, placed, located, settled, matched
  | .print value, placed, located, settled, matched => by
    rw [Stmt.points]
    refine .face placed located settled matched ?_
    rw [Stmt.findings] at settled
    exact points_watched callers called value located.mirrors settled matched
  | .var name initializer, placed, located, settled, matched => by
    rw [Stmt.points]
    refine .face placed located settled matched ?_
    have free : here.holds name = false := by
      cases initializer <;> rw [Stmt.findings] at settled
      · exact settled.not_holds
      · exact settled.left.not_holds
    obtain ⟨v, inside, r', le, mirrors, matched⟩ := declaring_faced located free matched
    refine optionPoints_watched callers called mirrors ?_ matched
    rintro e rfl
    rw [Stmt.findings] at settled
    exact settled.right.mono le
  | .block body, placed, located, settled, matched => by
    rw [Stmt.points]
    refine .face placed located settled matched ?_
    rw [Stmt.findings] at settled
    rw [matched.current]
    refine .following (newScope_agrees located.mirrors.scope_known) matched ?_
    intro v scope _ k l grows new after
    have there := Located.enter (located.mirrors.mono grows.le) new.1 new.2
    exact allStatementPoints_watched callers called body placed there (settled.mono grows.le)
      { after with current := rfl }
  | .branch condition consequent none, placed, located, settled, matched => by
    rw [Stmt.points]
    refine .face placed located settled matched ?_
    rw [Stmt.findings] at settled
    have tested := evaluate_agrees callers condition located.mirrors settled.left
    refine (points_watched callers called condition located.mirrors settled.left matched).append ?_
    refine .following tested matched fun v a b k l grows _ after => ?_
    split
    · exact statementPoints_watched callers called consequent placed.2 (located.mono grows)
        (settled.right.mono grows.le) after
    · exact .none
  | .branch condition consequent (some alternative), placed, located, settled, matched => by
    rw [Stmt.points]
    refine .face placed located settled matched ?_
    obtain ⟨⟨bare, placed⟩, -, placed'⟩ := placed
    rw [Stmt.findings, here.after_of_not_declares consequent bare placed] at settled
    have tested := evaluate_agrees callers condition located.mirrors settled.left.left
    refine (points_watched callers called condition located.mirrors settled.left.left matched).append ?_
    refine .following tested matched fun v a b k l grows _ after => ?_
    split
    · exact statementPoints_watched callers called consequent placed (located.mono grows)
        (settled.left.right.mono grows.le) after
    · exact statementPoints_watched callers called alternative placed' (located.mono grows)
        (settled.right.mono grows.le) after
  | .loop condition body, placed, located, settled, matched => by
    rw [Stmt.points]
    refine .face placed located settled matched ?_
    rw [Stmt.findings] at settled
    have tested := fun v (kept : Located v here current env ∧ w ≤ v) =>
      condition_keeps callers kept.1 kept.2 settled.left
    have round := fun v (kept : Located v here current env ∧ w ≤ v) =>
      body_keeps kept.1 kept.2 placed.1 placed.2
        (execute_agrees callers bound body placed.2 kept.1 (settled.right.mono kept.2))
    refine .rounds ⟨located, World.le_refl w⟩ matched tested round ?_ ?_ bound
    · intro v k l kept after
      exact points_watched callers called condition kept.1.mirrors (settled.left.mono kept.2) after
    · intro v k l kept after
      exact statementPoints_watched callers called body placed.2 kept.1 (settled.right.mono kept.2)
        after
  | .ret keyword value, placed, located, settled, matched => by
    rw [Stmt.points]
    refine .face placed located settled matched ?_
    refine optionPoints_watched callers called located.mirrors ?_ matched
    rintro e rfl
    rw [Stmt.findings] at settled
    exact settled.right
  | .function _, placed, located, settled, matched
  | .classDecl _ _, placed, located, settled, matched => by
    rw [Stmt.points]
    exact .face placed located settled matched .none

theorem allStatementPoints_watched (callers : CallersAgree call call')
    (called : CallPointsWatched inside) {w : World} {current : ScopeId} {here : Surroundings}
    {env : Environment} {m : Lox.Machine} {r : Machine} : (list : List Stmt) → Stmt.AllPlaced list →
      Located w here current env → Settled w (Stmt.allFindings here list) →
      Matches w current m r → Watched (Stmt.allPoints call inside bound list m)
  | [], _, _, _, _ => by
    rw [Stmt.allPoints]
    exact .none
  | s :: rest, placed, located, settled, matched => by
    rw [Stmt.allFindings] at settled
    rw [Stmt.allPoints]
    refine (statementPoints_watched callers called s placed.1 located settled.left matched).append ?_
    refine .following (execute_agrees callers bound s placed.1 located settled.left) matched ?_
    intro v _ env' k l grows there after
    exact allStatementPoints_watched callers called rest placed.2 there (settled.right.mono grows.le)
      after

end

end

theorem admittingPoints_watched {limit : Option Nat}
    {inside : Callable → List Value → (line : Nat) → Points}
    (watched : ∀ {w current what what' arguments arguments' m r} (line : Nat),
      CallableAlike w what what' → List.Forall₂ (Alike w) arguments arguments' →
      arguments.length = what.arity → Matches w current m r → Watched (inside what arguments line m)) :
    CallPointsWatched (Lox.Run.admittingPoints limit inside) := by
  intro w current callee callee' arguments arguments' m r line alike all matched
  refine .following (admitted_agrees limit line alike all) matched fun v what what' k l grows both after => ?_
  have deeper : Matches v current { k with depth := k.depth + 1 } { l with depth := l.depth + 1 } :=
    { after with depth := by simp [after.depth] }
  exact watched line both.1 (all.imp fun _ _ alike => alike.mono grows.le) both.2 deeper

theorem invokePoints_watched (host : Host) (bound : Nat) {w : World} {current : ScopeId}
    {what : Callable} {what' : Callable Environment} {arguments : List Value}
    {arguments' : List (Value Environment)} {m : Lox.Machine} {r : Machine} (line : Nat)
    (alike : CallableAlike w what what') (all : List.Forall₂ (Alike w) arguments arguments')
    (complete : arguments.length = what.arity) (matched : Matches w current m r) :
    Watched (Lox.Run.invokePoints host bound what arguments line m) := by
  induction bound generalizing w current what what' arguments arguments' m r line with
  | zero => cases alike <;> exact .none
  | succ bound ih =>
    cases alike with
    | native => exact .none
    | ofClass class' => exact .none
    | closure closure =>
      refine .following (prepare_agrees closure all complete) matched ?_
      intro v scope e k l grows inBody after
      obtain ⟨here, located, settled⟩ := inBody
      exact allStatementPoints_watched bound (call_agrees host bound)
        (admittingPoints_watched ih) _ ((FunctionDecl.placed_iff _).1 closure.placed) located settled
        { after with current := rfl }

theorem callPoints_watched (host : Host) (bound : Nat) :
    CallPointsWatched (Lox.Run.callPoints host bound) :=
  admittingPoints_watched (invokePoints_watched host bound)

/-- Units that run one after the other are watched, whatever they are. -/
theorem unitPoints_watched (host : Host) (bound : Nat) (source : String) {w : World}
    {s : Lox.Session} {t : Session} (paired : Paired w s t) :
    Watched (s.unitPoints host bound source) := by
  rw [Lox.Session.unitPoints]
  cases compiled : Lox.compile source s.fresh with
  | mk result fresh =>
    cases result with
    | error errors => exact .none
    | ok program =>
      obtain ⟨u, -, noted, -, placed, settled⟩ := paired.begins compiled
      cases clean : (resolve program).filterMap Finding.error? with
      | cons first rest =>
        simp only [clean]
        exact .none
      | nil =>
        simp only [clean]
        exact .visit (by simp) (allStatementPoints_watched bound (call_agrees host bound)
          (callPoints_watched host bound) program placed (located_top u) (settled clean) noted)

theorem points_watched_of_paired (host : Host) (bound : Nat) (units : List String) {w : World}
    {s : Lox.Session} {t : Session} (paired : Paired w s t) :
    Watched (s.points host bound units) := by
  induction units generalizing w s t with
  | nil => exact .visit (by simp) .none
  | cons source rest ih =>
    obtain ⟨-, v, -, later⟩ := run_agrees host bound source paired
    exact .visit (by simp) ((unitPoints_watched host bound source paired).append (ih later))

theorem session_watched (host : Host) (bound : Nat) (outputLimit : Option Nat) (units : List String) :
    Watched ((Lox.Session.start outputLimit).points host bound units) :=
  points_watched_of_paired host bound units (start_paired outputLimit)

end Lexical

end Lox
