import Lox.Proofs.Lexical.Action
import Lox.Proofs.Scoping.Trace
import Mathlib.Data.List.Forall2

/-! Names come into being alike. While a name is declared it has a cell without content and is not
bound in its scope, and then both get the same value. The static scope around a statement knows just
the names that its scope has cells for, so a name that may be declared there has none yet. -/
namespace Lox.Lexical

/-- A place where statements are executed: no name has a cell in its scope that is not declared
there. -/
structure Located (w : World) (here : Surroundings) (scope : ScopeId) (e : Environment) : Prop where
  mirrors : Mirrors w here.scopes scope e
  exact : ∀ innermost ∈ here.scopes.head?, ∀ name, (w.cell scope name).isSome →
    innermost.binds name = true

variable {w v : World} {here : Surroundings} {scope current : ScopeId} {e : Environment}
  {name : Token} {c : Cell} {changing : List ScopeId}

namespace Located

theorem outer_isSome (located : Located w here scope e) (local' : here.scopes ≠ []) :
    (w.outer scope).isSome := by
  obtain ⟨mirrors, -⟩ := located
  cases mirrors' : here.scopes with
  | nil => exact absurd mirrors' local'
  | cons innermost outer =>
    rw [mirrors'] at mirrors
    cases mirrors with
    | inner _ linked _ _ => simp [linked]

theorem mono (located : Located w here scope e) (grows : w.Grows [] v) : Located v here scope e := by
  refine ⟨located.mirrors.mono grows.le, fun innermost first name held => ?_⟩
  have local' := located.outer_isSome fun top => by simp [top] at first
  rw [grows.frame scope (by simp) local'] at held
  exact located.exact innermost first name held

/-- An environment of the same place may have been found earlier. -/
theorem of_mirrors (located : Located v here scope e) (mirrors : Mirrors w here.scopes scope e')
    (le : w ≤ v) : Located v here scope e' := ⟨mirrors.mono le, located.exact⟩

/-- A scope of its own inside another place. -/
theorem enter {i : ScopeId} (mirrors : Mirrors w here.scopes scope e)
    (linked : w.outer i = some scope) (new : ∀ name, w.cell i name = none) :
    Located w (here.enter []) i e.enter :=
  ⟨mirrors.enter linked, fun _ _ name held => by simp [new name] at held⟩

theorem cell_none (located : Located w here scope e) (local' : here.scopes ≠ [])
    (free : here.holds name = false) : w.cell scope name.lexeme = none := by
  obtain ⟨innermost, outer, scopes⟩ := List.exists_cons_of_ne_nil local'
  cases held : w.cell scope name.lexeme with
  | none => rfl
  | some c =>
    have bound := located.exact innermost (by simp [scopes]) name.lexeme (by simp [held])
    simp [Surroundings.holds, scopes, bound] at free

/-- A cell for one more name. -/
theorem hold (located : Located w here scope e) (local' : here.scopes ≠ [])
    (free : here.holds name = false) (readiness : Readiness) :
    Located (w.withCell scope name.lexeme c) (here.hold name readiness) scope
      (e.extend name.lexeme c) := by
  have new := located.cell_none local' free
  obtain ⟨innermost, outer, scopes⟩ := List.exists_cons_of_ne_nil local'
  have held : (here.hold name readiness).scopes = innermost.put name.lexeme readiness :: outer := by
    simp [Surroundings.hold, scopes]
  refine ⟨?_, fun first member other cell => ?_⟩
  · rw [held]
    have mirrors := located.mirrors
    rw [scopes] at mirrors
    exact mirrors.declare new readiness
  · simp only [held, List.head?_cons, Option.mem_some_iff] at member
    subst member
    rw [Bindings.binds_put]
    by_cases same : other = name.lexeme
    · simp [same]
    · rw [World.cell_withCell_of_ne (by simp [same])] at cell
      simp [located.exact innermost (by simp [scopes]) other cell]

end Located

theorem hold_eq_of_top (top : here.scopes = []) (readiness : Readiness) :
    here.hold name readiness = here := by
  simp [Surroundings.hold, top]

theorem hold_ne_nil (local' : here.scopes ≠ []) (readiness : Readiness) :
    (here.hold name readiness).scopes ≠ [] := by
  obtain ⟨innermost, outer, scopes⟩ := List.exists_cons_of_ne_nil local'
  simp [Surroundings.hold, scopes]

/-- The value is found where the name is declared and gets its value only then. -/
theorem declare_agrees (located : Located w here current e) (free : here.holds name = false)
    {x : Lox.Run Value} {y : Environment → Run (Value Environment)} {bind : Value → Lox.Run Unit}
    (binds : ∀ value m, m.current = current →
      bind value m = Lox.Run.define current name.lexeme value m)
    (agrees : ∀ v inside, w ≤ v → (∀ readiness, Mirrors v (here.hold name readiness).scopes current inside) →
      Agrees v current [] x (y inside) Alike) :
    Agrees w current [current] (x >>= bind) (Run.declare e name y)
      fun v _ e' => Located v (here.define name) current e' := by
  by_cases top : here.scopes = []
  · have same : ∀ readiness, here.hold name readiness = here := hold_eq_of_top top
    have mirrors := located.mirrors
    have placed : current = globals ∧ e = .top := by
      rw [top] at mirrors
      cases mirrors
      exact ⟨rfl, rfl⟩
    obtain ⟨rfl, rfl⟩ := placed
    refine (agrees w .top (World.le_refl w) fun readiness => ?_).step fun v a b grows alike => ?_
    · rwa [same readiness]
    · intro m r matched
      rw [binds a m matched.current]
      refine ⟨v, .refl v, matched.setGlobal alike, ?_⟩
      rw [Surroundings.define, same]
      exact located.mono grows
  · obtain ⟨names, rfl⟩ : ∃ names, e = .inner names := by
      have mirrors := located.mirrors
      cases scopes : here.scopes with
      | nil => exact absurd scopes top
      | cons innermost outer =>
        rw [scopes] at mirrors
        cases mirrors
        exact ⟨_, rfl⟩
    refine .ofRight fun m r matched => ?_
    have new := located.cell_none top free
    have later := matched.newCell (located.outer_isSome top) new
    have grows := World.grows_withCell (c := r.cells.size) new
    refine ⟨_, r.cells.size, _, rfl, grows, later, ?_⟩
    have inside (readiness : Readiness) :=
      located.hold (c := r.cells.size) top free readiness
    refine (agrees _ _ grows.le fun readiness => (inside readiness).mirrors).step ?_
    intro v a b further alike m r matched
    rw [binds a m matched.current]
    have held := further.le.cell World.cell_withCell_same
    exact ⟨v, .refl v, matched.setLocal held alike, (inside .ready).mono further⟩

/-- A name that has its value from the start, in a scope that nothing is executed in yet. -/
theorem define_agrees {Q : World → α → β → Prop} {a : Value} {b : Value Environment}
    {f : Unit → Lox.Run α} {g : Cell → Run β} (located : Located w here scope e)
    (local' : here.scopes ≠ []) (free : here.holds name = false) (alike : Alike w a b)
    (agrees : ∀ v c, w.Grows [scope] v →
      Located v (here.define name) scope (e.extend name.lexeme c) →
      Agrees v current (scope :: changing) (f ()) (g c) Q) :
    Agrees w current (scope :: changing) (Lox.Run.define scope name.lexeme a >>= f)
      (do let cell ← Run.newCell
          Run.setCell cell b
          g cell) Q := by
  intro m r matched
  have new := located.cell_none local' free
  have grows := World.grows_withCell (c := r.cells.size) new
  have later := (matched.newCell (located.outer_isSome local') new).setLocal
    World.cell_withCell_same (alike.mono grows.le)
  have joined := agrees _ r.cells.size grows (located.hold local' free .ready) _ _ later
  exact joined.rebase (fun further => (grows.weaken (by simp)).trans further) fun _ h => h

theorem defineEach_agrees {arguments : List Value} {arguments' : List (Value Environment)}
    {parameters : List Token} (located : Located w here scope e) (local' : here.scopes ≠ [])
    (settled : Settled w (here.redeclaringEach parameters))
    (alike : List.Forall₂ (Alike w) arguments arguments')
    (complete : arguments.length = parameters.length) :
    Agrees w current [scope] (Lox.Run.defineEach scope parameters arguments)
      (Run.bindEach e parameters arguments')
      fun v _ e' => Located v (parameters.foldl Surroundings.define here) scope e' := by
  induction parameters generalizing w here e arguments arguments' with
  | nil =>
    obtain rfl := List.length_eq_zero_iff.1 complete
    cases alike
    exact .pure located
  | cons parameter parameters ih =>
    cases alike with
    | nil => cases complete
    | cons first rest =>
      rw [Lox.Run.defineEach, Run.bindEach]
      refine define_agrees located local' settled.left.not_holds first fun v c grows inside => ?_
      refine ih inside (hold_ne_nil local' _) (settled.right.mono grows.le) ?_ (by simpa using complete)
      exact rest.imp fun _ _ alike => alike.mono grows.le

theorem bindMethod_agrees {c : Class} {d : Class Environment} {method : FunctionDecl} {a : Value}
    {b : Value Environment} (class' : ClassAlike w c d) (member : method ∈ c.methods)
    (alike : Alike w a b) : Agrees w current changing (Lox.Run.bindMethod a c method)
      (Run.bindMethod b d method) Alike := by
  obtain ⟨here, mirrors, settled⟩ := class'.mirrors
  let this : Token := ⟨.keyword .thisWord, Keyword.thisWord.spelling, none, 0⟩
  refine .newScope mirrors.scope_known fun v scope grows linked new => ?_
  have located : Located v (here.enter []) scope d.scope.enter :=
    .enter (mirrors.mono grows.le) linked new
  have free : (here.enter []).holds this = false := rfl
  refine define_agrees located (by simp [Surroundings.enter]) free (alike.mono grows.le)
    fun u c further inside => ?_
  refine newCallable_agrees (.closure ⟨rfl, class'.placed.of_mem member, here.inMethods, inside.mirrors, ?_⟩)
  exact ((settled.of_method member).mono grows.le).mono further.le

theorem property_agrees {a : Value} {b : Value Environment} (alike : Alike w a b) (name : Token) :
    Agrees w current changing (Lox.Run.property a name) (Run.property b name) Alike := by
  cases alike with
  | object class' =>
    refine (field?_agrees _ name.lexeme).step fun v found found' grows related => ?_
    cases related with
    | some alike => exact .pure alike
    | none =>
      have class'' := class'.mono grows.le
      simp only [class''.method?_eq]
      cases chosen : Class.method? _ name.lexeme with
      | none => exact .raise
      | some method =>
        refine bindMethod_agrees class'' ?_ (.object class'')
        rw [class''.methods]
        exact List.mem_reverse.1 (List.mem_of_find?_eq_some chosen)
  | _ => exact .raise

/-- What follows a call's preparation begins in a scope of its own, in which the parameters have their
arguments. -/
theorem prepare_bind_agrees {Q : World → α → β → Prop} {f : Closure} {g : Closure Environment}
    {arguments : List Value} {arguments' : List (Value Environment)} {next : ScopeId → Lox.Run α}
    {next' : Environment → Run β} (closure : ClosureAlike w f g)
    (alike : List.Forall₂ (Alike w) arguments arguments')
    (complete : arguments.length = f.declaration.parameters.length)
    (agrees : ∀ v here scope e, Located v here scope e →
      Settled v (Stmt.allFindings here f.declaration.body) →
      Agrees v current (scope :: changing) (next scope) (next' e) Q) :
    Agrees w current changing (Lox.Run.prepare f arguments >>= next)
      (Run.bindEach g.scope.enter g.declaration.parameters arguments' >>= next') Q := by
  obtain ⟨here, mirrors, settled⟩ := closure.mirrors
  rw [Lox.Run.prepare, ← closure.declaration]
  simp only [bind_assoc, pure_bind]
  refine .newScope mirrors.scope_known fun v scope grows linked new => ?_
  have located := Located.enter (mirrors.mono grows.le) linked new
  have inBody : Located v { here.enter [] with inFunction := true } scope g.scope.enter :=
    ⟨located.mirrors, located.exact⟩
  rw [FunctionDecl.findings_eq] at settled
  have later := alike.imp fun _ _ alike => Alike.mono grows.le alike
  refine (defineEach_agrees inBody (by simp [Surroundings.enter]) (settled.left.mono grows.le) later
    complete).bind (by simp) fun u _ e' further inside => ?_
  exact agrees u _ scope e' inside ((settled.right.mono grows.le).mono further.le)

theorem prepare_agrees {f : Closure} {g : Closure Environment} {arguments : List Value}
    {arguments' : List (Value Environment)} (closure : ClosureAlike w f g)
    (alike : List.Forall₂ (Alike w) arguments arguments')
    (complete : arguments.length = f.declaration.parameters.length) :
    Agrees w current [] (Lox.Run.prepare f arguments)
      (Run.bindEach g.scope.enter g.declaration.parameters arguments') fun v scope e =>
        ∃ here, Located v here scope e ∧ Settled v (Stmt.allFindings here f.declaration.body) := by
  rw [← bind_pure (Lox.Run.prepare f arguments), ← bind_pure (Run.bindEach _ _ _)]
  exact prepare_bind_agrees closure alike complete fun v here scope e located settled =>
    .pure ⟨here, located, settled⟩

/-- The body of a function is executed in a scope of its own, in which its parameters have their
arguments. -/
theorem enter_agrees {f : Closure} {g : Closure Environment} {arguments : List Value}
    {arguments' : List (Value Environment)} {body : Lox.Run Unit} {body' : Environment → Run Unit}
    (closure : ClosureAlike w f g) (alike : List.Forall₂ (Alike w) arguments arguments')
    (complete : arguments.length = f.declaration.parameters.length)
    (agrees : ∀ v here scope e, Located v here scope e →
      Settled v (Stmt.allFindings here f.declaration.body) →
      Agrees v scope [scope] body (body' e) fun _ _ _ => True) :
    Agrees w current changing (Lox.Run.enter f arguments body) (Lexical.enter g arguments' body')
      Alike := by
  rw [Lox.Run.enter_eq, Lexical.enter]
  refine prepare_bind_agrees closure alike complete fun v here scope e located settled => ?_
  exact .returning (.within ((agrees v here scope e located settled).mono (by simp) fun _ h => h))

end Lox.Lexical
