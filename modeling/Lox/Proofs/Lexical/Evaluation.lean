import Lox.Proofs.Lexical.Declaring

/-! Programs agree with what they are under lexical scope: expressions by induction on the expression,
statements by induction on the statement, and calls by induction on the bound, since a function's body
is executed with a smaller one. -/
namespace Lox.Lexical

/-- Calls of values that stand for each other agree, wherever they are made. -/
def CallersAgree (call : Lox.Caller) (call' : Caller) : Prop :=
  ∀ {w current callee callee' arguments arguments'} (line : Nat), Alike w callee callee' →
    List.Forall₂ (Alike w) arguments arguments' →
    Agrees w current [] (call callee arguments line) (call' callee' arguments' line) Alike

section

variable {call : Lox.Caller} {call' : Caller}

mutual

theorem evaluate_agrees (callers : CallersAgree call call') {w : World} {current : ScopeId}
    {here : Surroundings} {env : Environment} :
    (e : Expr) → Mirrors w here.scopes current env → Settled w (e.findings here) →
      Agrees w current [] (e.evaluate call) (evaluate call' env e) Alike
  | .constant value, _, _ => by
    rw [Expr.evaluate, evaluate]
    exact .pure (.ofConstant value)
  | .group inner, mirrors, settled => by
    rw [Expr.findings] at settled
    rw [Expr.evaluate, evaluate]
    exact evaluate_agrees callers inner mirrors settled
  | .unary operator operand, mirrors, settled => by
    rw [Expr.findings] at settled
    rw [Expr.evaluate, evaluate]
    exact (evaluate_agrees callers operand mirrors settled).step fun v a b _ alike =>
      applyUnary_agrees alike operator
  | .binary left operator right, mirrors, settled => by
    rw [Expr.findings] at settled
    rw [Expr.evaluate, evaluate]
    refine (evaluate_agrees callers left mirrors settled.left).step fun v a a' grows first => ?_
    refine (evaluate_agrees callers right (mirrors.mono grows.le) (settled.right.mono grows.le)).step ?_
    intro u b b' further second
    exact applyBinary_agrees (first.mono further.le) second operator
  | .logical left operator right, mirrors, settled => by
    rw [Expr.findings] at settled
    rw [Expr.evaluate, evaluate]
    refine (evaluate_agrees callers left mirrors settled.left).step fun v a a' grows first => ?_
    have decides : Lox.Run.decides operator a = Lox.Run.decides operator a' := by
      simp [Lox.Run.decides, first.truthy_eq]
    rw [decides]
    split
    · exact .pure first
    · exact evaluate_agrees callers right (mirrors.mono grows.le) (settled.right.mono grows.le)
  | .read i name, mirrors, settled => by
    rw [Expr.findings] at settled
    rw [Expr.evaluate, evaluate]
    exact read_agrees mirrors settled.right.of_referring
  | .assign i name value, mirrors, settled => by
    rw [Expr.findings] at settled
    rw [Expr.evaluate, evaluate]
    refine (evaluate_agrees callers value mirrors settled.left).step fun v a b grows alike => ?_
    have known := (settled.right.mono grows.le).of_referring
    refine (assign_agrees (mirrors.mono grows.le) known alike).step fun u _ _ further _ => ?_
    exact .pure (alike.mono further.le)
  | .call callee closing arguments, mirrors, settled => by
    rw [Expr.findings] at settled
    rw [Expr.evaluate, evaluate]
    refine (evaluate_agrees callers callee mirrors settled.left).step fun v a a' grows alike => ?_
    refine (evaluateAll_agrees callers arguments (mirrors.mono grows.le) (settled.right.mono grows.le)).step ?_
    intro u list list' further all
    exact callers closing.line (alike.mono further.le) all
  | .get object name, mirrors, settled => by
    rw [Expr.findings] at settled
    rw [Expr.evaluate, evaluate]
    exact (evaluate_agrees callers object mirrors settled).step fun v a b _ alike =>
      property_agrees alike name
  | .set object name value, mirrors, settled => by
    rw [Expr.findings] at settled
    rw [Expr.evaluate, evaluate]
    refine (evaluate_agrees callers object mirrors settled.right).step fun v a a' grows alike => ?_
    cases alike with
    | object class' =>
      refine (evaluate_agrees callers value (mirrors.mono grows.le) (settled.left.mono grows.le)).step ?_
      intro u b b' further alike
      refine (setField_agrees alike _ name.lexeme).step fun t _ _ last _ => ?_
      exact .pure (alike.mono last.le)
    | _ => exact .raise
  | .this i keyword, mirrors, settled => by
    rw [Expr.findings] at settled
    rw [Expr.evaluate, evaluate]
    refine read_agrees mirrors ?_
    split at settled
    · exact settled.of_referring
    · obtain ⟨_, _, _, same, -⟩ := settled _ (List.mem_singleton.2 rfl)
      cases same

theorem evaluateAll_agrees (callers : CallersAgree call call') {w : World} {current : ScopeId}
    {here : Surroundings} {env : Environment} : (list : List Expr) → Mirrors w here.scopes current env →
      Settled w (Expr.allFindings here list) → Agrees w current [] (Expr.evaluateAll call list)
        (evaluateAll call' env list) fun v => List.Forall₂ (Alike v)
  | [], _, _ => by
    rw [Expr.evaluateAll, evaluateAll]
    exact .pure .nil
  | e :: rest, mirrors, settled => by
    rw [Expr.allFindings] at settled
    rw [Expr.evaluateAll, evaluateAll]
    refine (evaluate_agrees callers e mirrors settled.left).step fun v a b grows first => ?_
    refine (evaluateAll_agrees callers rest (mirrors.mono grows.le) (settled.right.mono grows.le)).step ?_
    intro u list list' further all
    exact .pure (.cons (first.mono further.le) all)

end

theorem valueOf_agrees (callers : CallersAgree call call') {w : World} {current : ScopeId}
    {here : Surroundings} {env : Environment} {value : Option Expr} (mirrors : Mirrors w here.scopes current env)
    (settled : ∀ e ∈ value, Settled w (e.findings here)) :
    Agrees w current [] (Lox.Run.valueOf call value) (valueOf call' env value) Alike := by
  cases value with
  | none => exact .pure .nil
  | some e => exact evaluate_agrees callers e mirrors (settled e rfl)

/-- What is executed where no declaration may stand leaves its place as it was. -/
theorem stays {v w : World} {current : ScopeId} {here : Surroundings} {env env' : Environment}
    {s : Stmt} (located : Located w here current env) (bare : s.declares = false) (placed : s.Placed)
    (le : w ≤ v) (after : Located v (here.after s) current env') : Located v here current env := by
  rw [here.after_of_not_declares s bare placed] at after
  exact after.of_mirrors located.mirrors le

/-- Between the parts of a loop its place stays as it was when the loop began. -/
theorem condition_keeps (callers : CallersAgree call call') {v w : World} {current : ScopeId}
    {here : Surroundings} {env : Environment} {condition : Expr} (located : Located v here current env)
    (le : w ≤ v) (settled : Settled w (condition.findings here)) :
    Agrees v current [] (condition.evaluate call) (evaluate call' env condition) fun u a b =>
      (Located u here current env ∧ w ≤ u) ∧ Alike u a b :=
  (evaluate_agrees callers condition located.mirrors (settled.mono le)).mono (by simp)
    fun grows alike => ⟨⟨located.mono grows, World.le_trans le grows.le⟩, alike⟩

theorem body_keeps {v w : World} {current : ScopeId} {here : Surroundings} {env : Environment}
    {body : Stmt} {x : Lox.Run Unit} {y : Run Environment} (located : Located v here current env)
    (le : w ≤ v) (bare : body.declares = false) (placed : body.Placed)
    (agrees : Agrees v current [current] x y fun u _ env' => Located u (here.after body) current env') :
    Agrees v current [current] x (do let _ ← y) fun u _ _ =>
      Located u here current env ∧ w ≤ u :=
  agrees.thenPure (fun _ h => h) fun _ _ _ grows after =>
    ⟨stays located bare placed grows.le after, World.le_trans le grows.le⟩

mutual

theorem execute_agrees (callers : CallersAgree call call') (bound : Nat) {w : World}
    {current : ScopeId} {here : Surroundings} {env : Environment} :
    (s : Stmt) → s.Placed → Located w here current env → Settled w (s.findings here) →
      Agrees w current [current] (s.execute call bound) (execute call' bound env s)
        fun v _ env' => Located v (here.after s) current env'
  | .expression value, _, located, settled => by
    rw [Stmt.findings] at settled
    rw [Stmt.execute, execute]
    exact (evaluate_agrees callers value located.mirrors settled).step fun v _ _ grows _ =>
      .pure (located.mono grows)
  | .print value, _, located, settled => by
    rw [Stmt.findings] at settled
    rw [Stmt.execute, execute]
    refine (evaluate_agrees callers value located.mirrors settled).step fun v a b grows alike => ?_
    exact (printLine_agrees alike).thenPure (by simp) fun u _ _ further _ =>
      (located.mono grows).mono further
  | .var name initializer, _, located, settled => by
    rw [Stmt.execute, execute]
    have free : here.holds name = false := by
      cases initializer <;> rw [Stmt.findings] at settled
      · exact settled.not_holds
      · exact settled.left.not_holds
    refine declare_agrees located free (fun value m same => same ▸ rfl)
      fun v inside le mirrors => ?_
    have declared : Mirrors v (here.declare name).scopes current inside := by
      rw [Surroundings.declare, if_neg (by simp [free])]
      exact mirrors .pending
    refine valueOf_agrees callers declared ?_
    · rintro e rfl
      rw [Stmt.findings] at settled
      exact settled.right.mono le
  | .block body, placed, located, settled => by
    rw [Stmt.findings] at settled
    rw [Stmt.execute, execute]
    have inside : Agrees w current [] (do
        let scope ← Lox.Run.newScope current
        Lox.Run.within scope (Stmt.executeAll call bound body))
        (executeAll call' bound env.enter body) fun _ _ _ => True := by
      refine .newScope located.mirrors.scope_known fun v scope grows linked new => .within ?_
      have there := Located.enter (located.mirrors.mono grows.le) linked new
      exact executeAll_agrees callers bound body placed there (settled.mono grows.le)
    exact (inside.asking fun m same => same ▸ rfl).thenPure (by simp) fun v _ _ grows _ =>
      located.mono grows
  | .branch condition consequent none, placed, located, settled => by
    rw [here.after_of_not_declares _ rfl placed]
    rw [Stmt.findings] at settled
    rw [Stmt.execute, execute]
    refine (evaluate_agrees callers condition located.mirrors settled.left).step ?_
    intro v a b grows alike
    have there := located.mono grows
    rw [alike.truthy_eq]
    split
    · have taken := execute_agrees callers bound consequent placed.2 there
        (settled.right.mono grows.le)
      exact taken.thenPure (fun _ h => h) fun u _ _ further after =>
        stays there placed.1 placed.2 further.le after
    · exact .pure there
  | .branch condition consequent (some alternative), placed, located, settled => by
    rw [here.after_of_not_declares _ rfl placed]
    obtain ⟨⟨bare, placed⟩, bare', placed'⟩ := placed
    rw [Stmt.findings, here.after_of_not_declares consequent bare placed] at settled
    rw [Stmt.execute, execute]
    refine (evaluate_agrees callers condition located.mirrors settled.left.left).step ?_
    intro v a b grows alike
    have there := located.mono grows
    rw [alike.truthy_eq]
    split
    · have taken := execute_agrees callers bound consequent placed there
        (settled.left.right.mono grows.le)
      exact taken.thenPure (fun _ h => h) fun u _ _ further after =>
        stays there bare placed further.le after
    · have taken := execute_agrees callers bound alternative placed' there
        (settled.right.mono grows.le)
      exact taken.thenPure (fun _ h => h) fun u _ _ further after =>
        stays there bare' placed' further.le after
  | .loop condition body, placed, located, settled => by
    rw [here.after_of_not_declares _ rfl placed]
    rw [Stmt.findings] at settled
    rw [Stmt.execute, execute]
    have rounds : Agrees w current [current]
        (Lox.Run.repeating (condition.evaluate call) (body.execute call bound) bound)
        (Lox.Run.repeating (evaluate call' env condition)
          (do let _ ← execute call' bound env body) bound)
        fun v _ _ => Located v here current env := by
      refine .repeating (I := fun v => Located v here current env ∧ w ≤ v)
        ⟨located, World.le_refl w⟩ ?_ ?_ (fun kept => kept.1) bound
      · intro v kept
        exact condition_keeps callers kept.1 kept.2 settled.left
      · intro v kept
        exact body_keeps kept.1 kept.2 placed.1 placed.2
          (execute_agrees callers bound body placed.2 kept.1 (settled.right.mono kept.2))
    exact rounds.thenPure (fun _ h => h) fun _ _ _ _ kept => kept
  | .function declaration, placed, located, settled => by
    rw [Stmt.findings] at settled
    rw [Stmt.execute, execute]
    have made : Agrees w current [current] (do
        let value ← Lox.Run.newCallable (.closure ⟨declaration, current⟩)
        Lox.Run.define current declaration.name.lexeme value)
        (Run.declare env declaration.name fun inside =>
          Run.newCallable (.closure ⟨declaration, inside⟩))
        fun v _ env' => Located v (here.define declaration.name) current env' := by
      refine declare_agrees located settled.left.not_holds (fun _ _ _ => rfl) ?_
      intro v inside le mirrors
      exact newCallable_agrees (.closure
        ⟨rfl, placed, here.define declaration.name, mirrors .ready, settled.right.mono le⟩)
    exact made.asking fun m same => same ▸ rfl
  | .ret keyword value, _, located, settled => by
    rw [Stmt.execute, execute]
    have settled' : ∀ e ∈ value, Settled w (e.findings here) := by
      rintro e rfl
      rw [Stmt.findings] at settled
      exact settled.right
    exact (valueOf_agrees callers located.mirrors settled').step fun v _ _ _ alike =>
      .throw (.returned alike)
  | .classDecl name methods, placed, located, settled => by
    rw [Stmt.findings] at settled
    rw [Stmt.execute, execute]
    have made : Agrees w current [current] (do
        let value ← Lox.Run.newCallable (.ofClass ⟨name.lexeme, methods, current⟩)
        Lox.Run.define current name.lexeme value)
        (Run.declare env name fun inside =>
          Run.newCallable (.ofClass ⟨name.lexeme, methods, inside⟩))
        fun v _ env' => Located v (here.define name) current env' := by
      refine declare_agrees located settled.left.not_holds (fun _ _ _ => rfl) ?_
      intro v inside le mirrors
      exact newCallable_agrees (.ofClass
        ⟨rfl, rfl, placed, here.define name, mirrors .ready, settled.right.mono le⟩)
    exact made.asking fun m same => same ▸ rfl

theorem executeAll_agrees (callers : CallersAgree call call') (bound : Nat) {w : World}
    {current : ScopeId} {here : Surroundings} {env : Environment} :
    (list : List Stmt) → Stmt.AllPlaced list → Located w here current env →
      Settled w (Stmt.allFindings here list) →
      Agrees w current [current] (Stmt.executeAll call bound list) (executeAll call' bound env list)
        fun _ _ _ => True
  | [], _, _, _ => by
    rw [Stmt.executeAll, executeAll]
    exact .pure trivial
  | s :: rest, placed, located, settled => by
    rw [Stmt.allFindings] at settled
    rw [Stmt.executeAll, executeAll]
    refine (execute_agrees callers bound s placed.1 located settled.left).bind (fun _ h => h) ?_
    intro v _ following grows after
    exact executeAll_agrees callers bound rest placed.2 after (settled.right.mono grows.le)

end

end

variable {w : World} {current : ScopeId} {arguments : List Value}
  {arguments' : List (Value Environment)}

/-- What is admitted to be called has as many parameters as there are arguments. -/
theorem admitted_agrees {callee : Value} {callee' : Value Environment} (limit : Option Nat)
    (line : Nat) (alike : Alike w callee callee')
    (all : List.Forall₂ (Alike w) arguments arguments') :
    Agrees w current [] (Lox.Run.admitted limit callee arguments line)
      (admitted limit callee' arguments' line)
      fun v what what' => CallableAlike v what what' ∧ arguments.length = what.arity := by
  cases alike with
  | callable alike =>
    rw [Lox.Run.admitted, admitted]
    simp only [← alike.arity_eq, ← all.length_eq]
    split
    · exact .raise_bind
    next complete =>
      intro m r matched
      rw [Lox.Run.get_bind, Lox.Run.get_bind, ← matched.depth]
      split
      · exact ⟨w, .refl w, matched, .raised⟩
      · exact ⟨w, .refl w, matched, alike, not_not.1 complete⟩
  | _ => exact .raise

theorem admitting_agrees {limit : Option Nat}
    {invoke : Callable → List Value → (line : Nat) → Lox.Run Value}
    {invoke' : Callable Environment → List (Value Environment) → (line : Nat) →
      Run (Value Environment)}
    (agrees : ∀ {w current what what' arguments arguments'} (line : Nat),
      CallableAlike w what what' → List.Forall₂ (Alike w) arguments arguments' →
      arguments.length = what.arity →
      Agrees w current [] (invoke what arguments line) (invoke' what' arguments' line) Alike) :
    CallersAgree (Lox.Run.admitting limit invoke) (admitting limit invoke') := by
  intro w current callee callee' arguments arguments' line alike all
  refine (admitted_agrees limit line alike all).step fun v what what' grows both => ?_
  exact .counted (agrees line both.1 (all.imp fun _ _ alike => alike.mono grows.le) both.2)

theorem answer_agrees (now : Float) (which : Native) (line : Nat)
    (all : List.Forall₂ (Alike w) arguments arguments') :
    Agrees w current [] (match which.answer now arguments with
        | .ok value => pure value
        | .error text => Lox.Run.raise line (.native text))
      (match which.answer now arguments' with
        | .ok value => pure value
        | .error text => Lox.Run.raise line (.native text)) Alike := by
  obtain ⟨given, here, there⟩ := answers_of_shown which now all fun _ _ alike => alike.shown_eq
  rw [here, there]
  cases given with
  | ok c => exact .pure (.ofConstant c)
  | error text => exact .raise

theorem invoke_agrees (host : Host) (bound : Nat) {w : World} {current : ScopeId}
    {what : Callable} {what' : Callable Environment} {arguments : List Value}
    {arguments' : List (Value Environment)} (line : Nat) (alike : CallableAlike w what what')
    (all : List.Forall₂ (Alike w) arguments arguments') (complete : arguments.length = what.arity) :
    Agrees w current [] (Lox.Run.invoke host bound what arguments line)
      (invoke host bound what' arguments' line) Alike := by
  induction bound generalizing w current what what' arguments arguments' line with
  | zero =>
    cases alike with
    | native =>
      rw [Lox.Run.invoke, invoke]
      refine (clock_agrees host).step fun v now _ grows same => ?_
      subst same
      exact answer_agrees now _ line (all.imp fun _ _ alike => alike.mono grows.le)
    | closure => exact .throw .exhausted
    | ofClass class' => exact newObject_agrees class'
  | succ bound ih =>
    cases alike with
    | native =>
      rw [Lox.Run.invoke, invoke]
      refine (clock_agrees host).step fun v now _ grows same => ?_
      subst same
      exact answer_agrees now _ line (all.imp fun _ _ alike => alike.mono grows.le)
    | closure closure =>
      refine enter_agrees closure all complete fun v here scope e located settled => ?_
      rw [← closure.declaration]
      have placed := (FunctionDecl.placed_iff _).1 closure.placed
      exact executeAll_agrees (admitting_agrees ih) bound _ placed located settled
    | ofClass class' => exact newObject_agrees class'

theorem call_agrees (host : Host) (bound : Nat) :
    CallersAgree (Lox.Run.call host bound) (call host bound) :=
  admitting_agrees (invoke_agrees host bound)

end Lox.Lexical
