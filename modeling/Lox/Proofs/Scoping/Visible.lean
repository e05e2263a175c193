import Lox.Proofs.Grammar.Numbering

/-! Which local names are declared at each occurrence of a name, told without scopes and distances.
Resolution finds no distance just for the names that are not. -/
namespace Lox

/-- The names declared so far in the local scopes around a place. The top level is none. -/
abbrev Visible := Option (List String)

namespace Visible

def names (v : Visible) : List String := v.getD []

def enter (v : Visible) : Visible := some v.names

/-- What is declared at the top level is no local name. -/
def declare (v : Visible) (name : Token) : Visible := v.map (name.lexeme :: ·)

def after (v : Visible) : Stmt → Visible
  | .var name _ | .classDecl name _ => v.declare name
  | .function declaration => v.declare declaration.name
  | _ => v

/-- In a method `this` is visible. -/
def inMethods (v : Visible) : Visible := some (Keyword.thisWord.spelling :: v.names)

end Visible

mutual

/-- The occurrences in an expression, each with the local names declared there. -/
def Expr.sights (v : Visible) : Expr → List (Occurrence × List String)
  | .constant _ => []
  | .read id _ | .this id _ => [(id, v.names)]
  | .group part | .unary _ part | .get part _ => part.sights v
  | .binary left _ right | .logical left _ right | .set left _ right => left.sights v ++ right.sights v
  | .assign id _ value => (id, v.names) :: value.sights v
  | .call callee _ arguments => callee.sights v ++ Expr.allSights v arguments

def Expr.allSights (v : Visible) : List Expr → List (Occurrence × List String)
  | [] => []
  | e :: rest => e.sights v ++ Expr.allSights v rest

end

mutual

/-- A variable is declared where its initializer begins, a function and a class where its body
does. -/
def Stmt.sights (v : Visible) : Stmt → List (Occurrence × List String)
  | .expression value | .print value => value.sights v
  | .var name initializer => (initializer.map (·.sights (v.declare name))).getD []
  | .block body => Stmt.allSights v.enter body
  | .branch condition consequent none => condition.sights v ++ consequent.sights v
  | .branch condition consequent (some alternative) =>
    condition.sights v ++ consequent.sights v ++ alternative.sights v
  | .loop condition body => condition.sights v ++ body.sights v
  | .function declaration => declaration.sights (v.declare declaration.name)
  | .ret _ value => (value.map (·.sights v)).getD []
  | .classDecl name methods => FunctionDecl.allSights (v.declare name).inMethods methods

def Stmt.allSights (v : Visible) : List Stmt → List (Occurrence × List String)
  | [] => []
  | s :: rest => s.sights v ++ Stmt.allSights (v.after s) rest

def FunctionDecl.sights (v : Visible) : FunctionDecl → List (Occurrence × List String)
  | ⟨_, parameters, body⟩ => Stmt.allSights (parameters.foldl Visible.declare v.enter) body

def FunctionDecl.allSights (v : Visible) : List FunctionDecl → List (Occurrence × List String)
  | [] => []
  | f :: rest => f.sights v ++ FunctionDecl.allSights v rest

end

/-- The static scopes around a place bind the names visible there. -/
structure Shows (here : Surroundings) (v : Visible) : Prop where
  top : v = none ↔ here.scopes = []
  binds : ∀ name, (∃ scope ∈ here.scopes, scope.binds name = true) ↔ name ∈ v.names

namespace Shows

variable {here : Surroundings} {v : Visible} {name : Token}

theorem topLevel : Shows .topLevel none := ⟨by simp [Surroundings.topLevel], by
  simp [Surroundings.topLevel, Visible.names]⟩

theorem enter (shows' : Shows here v) : Shows (here.enter []) v.enter := by
  refine ⟨by simp [Surroundings.enter, Visible.enter], fun name => ?_⟩
  have none : Bindings.binds ([] : Bindings Readiness) name = false := rfl
  simpa [Surroundings.enter, Visible.enter, Visible.names, none] using shows'.binds name

theorem hold (shows' : Shows here v) (readiness : Readiness) :
    Shows (here.hold name readiness) (v.declare name) := by
  rw [Surroundings.hold]
  cases scopes : here.scopes with
  | nil =>
    obtain rfl := shows'.top.2 scopes
    exact shows'
  | cons innermost outer =>
    obtain ⟨names, rfl⟩ : ∃ names, v = some names := by
      refine Option.ne_none_iff_exists'.1 fun top => ?_
      simp [shows'.top.1 top] at scopes
    refine ⟨by simp [Visible.declare], fun other => ?_⟩
    have before := shows'.binds other
    simp only [scopes, List.mem_cons, exists_eq_or_imp, Visible.names, Option.getD_some] at before
    simp only [List.mem_cons, exists_eq_or_imp, Bindings.binds_put, Visible.declare, Visible.names,
      Option.map_some, Option.getD_some, Bool.or_eq_true, decide_eq_true_iff, or_assoc, before]

theorem declare (shows' : Shows here v) : Shows (here.declare name) (v.declare name) := by
  rw [Surroundings.declare]
  split
  next held =>
    -- a second declaration in the scope makes no further name visible
    cases scopes : here.scopes with
    | nil => simp [Surroundings.holds, scopes] at held
    | cons innermost outer =>
      have bound : innermost.binds name.lexeme = true := by
        simpa [Surroundings.holds, scopes] using held
      have again : Shows (here.hold name .ready) (v.declare name) := shows'.hold .ready
      refine ⟨?_, fun other => ?_⟩
      · rw [again.top, Surroundings.hold, scopes]
        simp
      · rw [← again.binds, Surroundings.hold, scopes]
        simp only [List.mem_cons, exists_eq_or_imp, Bindings.binds_put, Bool.or_eq_true,
          decide_eq_true_iff]
        constructor
        · rintro (first | later)
          · exact .inl (.inr first)
          · exact .inr later
        · rintro ((rfl | first) | later)
          · exact .inl bound
          · exact .inl first
          · exact .inr later
  next => exact shows'.hold .pending

theorem define (shows' : Shows here v) : Shows (here.define name) (v.declare name) :=
  shows'.hold .ready

theorem inMethods (shows' : Shows here v) : Shows here.inMethods v.inMethods := by
  refine ⟨by simp [Surroundings.inMethods, Surroundings.enter, Visible.inMethods], fun name => ?_⟩
  have before := shows'.binds name
  simp only [Surroundings.inMethods, Surroundings.enter, Visible.inMethods, Visible.names,
    Option.getD_some, List.mem_cons, exists_eq_or_imp] at before ⊢
  rw [before, eq_comm (a := name)]
  simp [Bindings.binds, Bindings.get?]

theorem defineEach (shows' : Shows here v) (parameters : List Token) :
    Shows (parameters.foldl Surroundings.define here) (parameters.foldl Visible.declare v) := by
  induction parameters generalizing here v with
  | nil => exact shows'
  | cons parameter rest ih => exact ih shows'.define

theorem inBody (shows' : Shows here v) (parameters : List Token) :
    Shows (here.inBody parameters) (parameters.foldl Visible.declare v.enter) := by
  have entered : Shows { here.enter [] with inFunction := true } v.enter :=
    ⟨shows'.enter.top, shows'.enter.binds⟩
  exact entered.defineEach parameters

theorem after (shows' : Shows here v) {s : Stmt} (placed : s.Placed) :
    Shows (here.after s) (v.after s) := by
  cases s with
  | var name initializer => exact shows'.define
  | function declaration => exact shows'.define
  | classDecl name methods => exact shows'.define
  | _ =>
    rw [here.after_of_not_declares _ rfl placed]
    exact shows'

theorem depth?_eq_none_iff (shows' : Shows here v) :
    here.depth? name = none ↔ name.lexeme ∉ v.names := by
  rw [Surroundings.depth?, List.findIdx?_eq_none_iff, ← shows'.binds]
  simp

end Shows
/-- Each occurrence that something was found of is among the sights, and no distance was found just if
its name is not visible. -/
def Seen (sights : List (Occurrence × List String)) (findings : List Finding) : Prop :=
  ∀ i name depth, .reference i name depth ∈ findings →
    ∃ names, (i, names) ∈ sights ∧ (depth = none ↔ name ∉ names)

namespace Seen

variable {a b : List Finding} {x y : List (Occurrence × List String)} {here : Surroundings}
  {v : Visible}

theorem append (left : Seen x a) (right : Seen y b) : Seen (x ++ y) (a ++ b) := by
  intro i name depth found
  rcases List.mem_append.1 found with first | second
  · obtain ⟨names, sighted, none⟩ := left i name depth first
    exact ⟨names, List.mem_append_left _ sighted, none⟩
  · obtain ⟨names, sighted, none⟩ := right i name depth second
    exact ⟨names, List.mem_append_right _ sighted, none⟩

theorem of_perm (seen : Seen x a) (same : x.Perm y) : Seen y a := by
  intro i name depth found
  obtain ⟨names, sighted, none⟩ := seen i name depth found
  exact ⟨names, same.mem_iff.1 sighted, none⟩

theorem of_errors (errors : ∀ f ∈ a, f.reference? = none) : Seen x a :=
  fun _ _ _ found => by cases errors _ found

theorem errors_append (errors : ∀ f ∈ a, f.reference? = none) (rest : Seen y b) :
    Seen y (a ++ b) := (of_errors (x := []) errors).append rest

theorem reference (shows' : Shows here v) (id : Occurrence) (name : Token) :
    Seen [(id, v.names)] [here.referring id name] := by
  intro i other depth found
  rw [Surroundings.referring, List.mem_singleton] at found
  cases found
  exact ⟨v.names, List.mem_singleton.2 rfl, shows'.depth?_eq_none_iff⟩

end Seen

mutual

theorem Expr.seen {here : Surroundings} {v : Visible} (shows' : Shows here v) :
    (e : Expr) → Seen (e.sights v) (e.findings here)
  | .constant value => by
    rw [Expr.findings]
    exact .of_errors (by simp)
  | .read i name => by
    rw [Expr.findings]
    refine .errors_append ?_ (.reference shows' i name)
    intro f member
    split at member
    · obtain rfl := List.mem_singleton.1 member
      rfl
    · cases member
  | .this i keyword => by
    rw [Expr.findings]
    split
    · exact .reference shows' i keyword
    · exact .of_errors (by simp [Finding.refused, Finding.reference?])
  | .group part | .unary _ part | .get part _ => by
    rw [Expr.findings]
    exact part.seen shows'
  | .binary left _ right | .logical left _ right => by
    rw [Expr.findings]
    exact (left.seen shows').append (right.seen shows')
  | .set object _ value => by
    rw [Expr.findings]
    exact ((value.seen shows').append (object.seen shows')).of_perm List.perm_append_comm
  | .assign i name value => by
    rw [Expr.findings]
    exact ((value.seen shows').append (.reference shows' i name)).of_perm List.perm_append_comm
  | .call callee _ arguments => by
    rw [Expr.findings]
    exact (callee.seen shows').append (Expr.allSeen shows' arguments)

theorem Expr.allSeen {here : Surroundings} {v : Visible} (shows' : Shows here v) :
    (list : List Expr) → Seen (Expr.allSights v list) (Expr.allFindings here list)
  | [] => by
    rw [Expr.allFindings]
    exact .of_errors (by simp)
  | e :: rest => by
    rw [Expr.allFindings]
    exact (e.seen shows').append (Expr.allSeen shows' rest)

end

mutual

theorem Stmt.seen {here : Surroundings} {v : Visible} (shows' : Shows here v) :
    (s : Stmt) → s.Placed → Seen (s.sights v) (s.findings here)
  | .expression value, _ | .print value, _ => by
    rw [Stmt.findings]
    exact value.seen shows'
  | .var name none, _ => by
    rw [Stmt.findings]
    exact .of_errors (here.redeclaring_errors name)
  | .var name (some initializer), _ => by
    rw [Stmt.findings]
    exact .errors_append (here.redeclaring_errors name) (initializer.seen shows'.declare)
  | .block body, placed => by
    rw [Stmt.findings]
    exact Stmt.allSeen shows'.enter body placed
  | .branch condition consequent none, placed => by
    rw [Stmt.findings]
    exact (condition.seen shows').append (consequent.seen shows' placed.2)
  | .branch condition consequent (some alternative), placed => by
    obtain ⟨⟨bare, placed⟩, -, placed'⟩ := placed
    rw [Stmt.findings, here.after_of_not_declares consequent bare placed]
    exact ((condition.seen shows').append (consequent.seen shows' placed)).append
      (alternative.seen shows' placed')
  | .loop condition body, placed => by
    rw [Stmt.findings]
    exact (condition.seen shows').append (body.seen shows' placed.2)
  | .function declaration, placed => by
    rw [Stmt.findings]
    exact .errors_append (here.redeclaring_errors _) (declaration.seen shows'.define placed)
  | .ret keyword none, _ => by
    rw [Stmt.findings]
    exact .of_errors (here.returning_errors keyword)
  | .ret keyword (some value), _ => by
    rw [Stmt.findings]
    exact .errors_append (here.returning_errors keyword) (value.seen shows')
  | .classDecl name methods, placed => by
    rw [Stmt.findings]
    exact .errors_append (here.redeclaring_errors name)
      (FunctionDecl.allSeen shows'.define.inMethods methods placed)

theorem Stmt.allSeen {here : Surroundings} {v : Visible} (shows' : Shows here v) :
    (list : List Stmt) → Stmt.AllPlaced list →
      Seen (Stmt.allSights v list) (Stmt.allFindings here list)
  | [], _ => by
    rw [Stmt.allFindings]
    exact .of_errors (by simp)
  | s :: rest, placed => by
    rw [Stmt.allFindings]
    exact (s.seen shows' placed.1).append (Stmt.allSeen (shows'.after placed.1) rest placed.2)

theorem FunctionDecl.seen {here : Surroundings} {v : Visible} (shows' : Shows here v) :
    (f : FunctionDecl) → f.Placed → Seen (f.sights v) (f.findings here)
  | ⟨_, parameters, body⟩, placed => by
    rw [FunctionDecl.findings]
    exact .errors_append (Surroundings.redeclaringEach_errors _ parameters)
      (Stmt.allSeen (shows'.inBody parameters) body placed)

theorem FunctionDecl.allSeen {here : Surroundings} {v : Visible} (shows' : Shows here v) :
    (list : List FunctionDecl) → FunctionDecl.AllPlaced list →
      Seen (FunctionDecl.allSights v list) (FunctionDecl.allFindings here list)
  | [], _ => by
    rw [FunctionDecl.allFindings]
    exact .of_errors (by simp)
  | f :: rest, placed => by
    rw [FunctionDecl.allFindings]
    exact (f.seen shows' placed.1).append (FunctionDecl.allSeen shows' rest placed.2)

end

/-- Resolution finds no distance of an occurrence just if its name is declared nowhere in the local
scopes around it. -/
theorem resolve_seen {program : List Stmt} (placed : Stmt.AllPlaced program) :
    Seen (Stmt.allSights none program) (resolve program) :=
  Stmt.allSeen .topLevel program placed

end Lox
