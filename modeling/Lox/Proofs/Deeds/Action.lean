import Lox.Proofs.Deeds.Tells
import Lox.Proofs.Scoping.Lookup

/-! The actions that evaluation is made of keep machines sane, give sane values, and change the scopes
only as programs may. -/
namespace Lox

variable {found : List Finding} {changing : Option ScopeId} {s t : Scopes Value} {m : Machine}
  {here : Surroundings} {active : Option Closure} {site : Site} {i : ScopeId} {name : Token}

/-- Reading a method makes a scope with nothing but `this` in it. -/
theorem Run.bindMethod_apply (object : Value) (c : Class) (method : FunctionDecl) (m : Machine) :
    Run.bindMethod object c method m =
      .ok (.callable m.identities (.closure ⟨method, m.scopes.list.size⟩))
        { m with
          scopes := (m.scopes.add (some c.scope)).1.define m.scopes.list.size
            Keyword.thisWord.spelling object
          identities := m.identities + 1 } := rfl

namespace Scopes

theorem bindings_bindThis (s : Scopes Value) (outer j : ScopeId) (value : Value) :
    ((s.add (some outer)).1.define s.list.size Keyword.thisWord.spelling value).bindings j =
      if j = s.list.size then [(Keyword.thisWord.spelling, value)] else s.bindings j := by
  rw [bindings_define, bindings_add, bindings_add, size_add,
    bindings_of_size_le (Nat.le_refl s.list.size)]
  simp [Bindings.put]

theorem Keeps.bindThis (s : Scopes Value) (outer : ScopeId) (value : Value) :
    Keeps changing s
      ((s.add (some outer)).1.define s.list.size Keyword.thisWord.spelling value) := by
  have older (j : ScopeId) (known : j < s.list.size) :
      ((s.add (some outer)).1.define s.list.size Keyword.thisWord.spelling value).bindings j =
        s.bindings j := by
    rw [bindings_bindThis, if_neg (Nat.ne_of_lt known)]
  refine ⟨⟨le_trans (s.le_add _) (le_define ..), fun j known => ?_⟩, fun j known _ name => ?_⟩ <;>
    rw [older j known]

theorem enclosing?_bindThis {s : Scopes Value} {outer : ScopeId} (value : Value)
    (known : outer < s.list.size) :
    ((s.add (some outer)).1.define s.list.size Keyword.thisWord.spelling value).enclosing?
      s.list.size = some outer := by
  rw [enclosing?_define]
  simp [enclosing?, add, known]

end Scopes

namespace Tells

variable {Q : Scopes Value → α → Prop} {v : Value}

theorem applyUnary (sane : m.Sane found) {operator : Token} (operand : Value)
    (known : operator.kind ∈ [.bang, .minus]) :
    Tells found changing m (Run.applyUnary operator operand) [] fun t v => v.Sane found t := by
  unfold Run.applyUnary
  split
  · cases operand with
    | number x => exact .pure sane trivial
    | _ => exact .raise sane
  · exact .pure sane trivial
  · simp_all

theorem numeric (sane : m.Sane found) (operator : Token) (left right : Value)
    {result : Float → Float → Value} (fits : ∀ x y t, (result x y).Sane found t) :
    Tells found changing m (Run.numeric operator left right result) [] fun t v => v.Sane found t := by
  unfold Run.numeric
  split
  · exact .pure sane (fits _ _ _)
  · exact .raise sane

theorem applyBinary (sane : m.Sane found) {operator : Token} (left right : Value)
    (known : operator.kind ∈ binaryKinds) :
    Tells found changing m (Run.applyBinary operator left right) [] fun t v => v.Sane found t := by
  unfold Run.applyBinary
  split
  any_goals exact numeric sane operator left right fun _ _ _ => trivial
  · exact .pure sane trivial
  · exact .pure sane trivial
  · unfold Run.add
    split
    · exact .pure sane trivial
    · exact .pure sane trivial
    · exact .raise sane
  · simp_all [binaryKinds]

theorem readVariable (sane : m.Sane found) (id : Occurrence) :
    Tells found changing m (Run.readVariable id name) [] fun t v => v.Sane found t := by
  unfold Tells
  rw [Run.readVariable_apply]
  cases bound : (m.scopeOf id name).bind fun i => (m.scopes.bindings i).get? name.lexeme with
  | none => exact ⟨.refl sane, trivial⟩
  | some v =>
    obtain ⟨i, -, held⟩ := Option.bind_eq_some_iff.1 bound
    exact ⟨.refl sane, sane.values i _ v held⟩


theorem defined {name : String} (sane : m.Sane found) (i : ScopeId)
    (preserves : m.scopes.Preserves (m.scopes.define i name v))
    (fits : v.Sane found (m.scopes.define i name v)) :
    Machine.Sane found { m with scopes := m.scopes.define i name v } := by
  refine { sane with
    rooted := sane.rooted.define i name v
    values := fun j other v' held => ?_
    fields := fun j other v' held => (sane.fields j other v' held).mono preserves }
  simp only [Scopes.bindings_define] at held
  split at held
  next here =>
    by_cases same : other = name
    · rw [same, Bindings.get?_put_same] at held
      cases held
      exact fits
    · rw [Bindings.get?_put_other _ same] at held
      exact (sane.values i other v' held).mono preserves
  next => exact (sane.values j other v' held).mono preserves

/-- The value may be of use only in the scopes that have it. -/
theorem define (sane : m.Sane found) (i : ScopeId)
    (other : name.lexeme ≠ Keyword.thisWord.spelling)
    (fits : v.Sane found (m.scopes.define i name.lexeme v)) :
    Tells found (some i) m (Run.define i name.lexeme v) [] fun t _ =>
      t = m.scopes.define i name.lexeme v := by
  have keeps := Scopes.Keeps.define m.scopes i v other
  exact ⟨⟨defined sane i keeps.preserves fits, rfl, rfl, .nil keeps⟩, rfl⟩

theorem assignVariable (sane : m.Sane found) (id : Occurrence)
    (other : name.lexeme ≠ Keyword.thisWord.spelling) (fits : v.Sane found m.scopes) :
    Tells found changing m (Run.assignVariable id name v) [] fun _ _ => True := by
  unfold Tells
  rw [Run.assignVariable_apply]
  cases chosen : (m.scopeOf id name).filter fun i => (m.scopes.bindings i).binds name.lexeme with
  | none => exact ⟨.refl sane, trivial⟩
  | some i =>
    have bound := (Option.filter_eq_some_iff.1 chosen).2
    have keeps : m.scopes.Keeps changing (m.scopes.define i name.lexeme v) := .replace v other bound
    exact ⟨⟨defined sane i keeps.preserves (fits.mono keeps.preserves), rfl, rfl, .nil keeps⟩, trivial⟩

theorem newScope (sane : m.Sane found) (known : i < m.scopes.list.size) :
    Tells found none m (Run.newScope i) [] fun t j =>
      t.enclosing? j = some i ∧ t.bindings j = [] ∧ j = m.scopes.list.size := by
  have keeps : m.scopes.Keeps none (m.scopes.add (some i)).1 := .add ..
  refine ⟨⟨?_, rfl, rfl, .nil keeps⟩, ?_, ?_, rfl⟩
  · exact { sane with
      rooted := sane.rooted.add known
      values := fun j other v held => by
        have same : (m.scopes.add (some i)).1.bindings j = m.scopes.bindings j := Scopes.bindings_add j
        exact (sane.values j other v (same ▸ held)).mono keeps.preserves
      fields := fun j other v held => (sane.fields j other v held).mono keeps.preserves }
  · simp [Scopes.enclosing?, known]
  · exact (Scopes.bindings_add _).trans (Scopes.bindings_of_size_le (Nat.le_refl _))

theorem newCallable (sane : m.Sane found) (what : Callable) :
    Tells found none m (Run.newCallable what) [] fun t v =>
      t = m.scopes ∧ ∃ identity, v = .callable identity what :=
  ⟨⟨{ sane with }, rfl, rfl, .nil (.refl _)⟩, rfl, _, rfl⟩

theorem newObject (sane : m.Sane found) {c : Class} (fits : c.Sane found m.scopes) :
    Tells found changing m (Run.newObject c) [] fun t v => v.Sane found t := by
  refine ⟨⟨{ sane with fields := fun j other v held => ?_ }, rfl, rfl, .nil (.refl _)⟩, fits⟩
  rw [Array.getElem?_push] at held
  split at held
  · cases held
  · exact sane.fields j other v held

theorem field? (sane : m.Sane found) (id : ObjectId) (name : String) :
    Tells found none m (Run.field? id name) [] fun t r => ∀ v ∈ r, v.Sane found t :=
  ⟨.refl sane, fun v held => sane.fields id name v held⟩

theorem setField (sane : m.Sane found) (id : ObjectId) (name : String)
    (fits : v.Sane found m.scopes) :
    Tells found changing m (Run.setField id name v) [] fun _ _ => True := by
  refine ⟨⟨{ sane with fields := fun j other v' held => ?_ }, rfl, rfl, .nil (.refl _)⟩, trivial⟩
  rw [Array.getElem?_modify] at held
  split at held
  next same =>
    cases before : m.objects[j]? with
    | none =>
      rw [before] at held
      cases held
    | some list =>
      simp only [before, Option.map_some, Option.getD_some] at held
      by_cases equal : other = name
      · rw [equal, Bindings.get?_put_same] at held
        cases held
        exact fits
      · rw [Bindings.get?_put_other _ equal] at held
        exact sane.fields j other v' (by rwa [before])
  next => exact sane.fields j other v' held

theorem write (sane : m.Sane found) (text : String) :
    Tells found changing m (Run.write text) [] fun _ _ => True := by
  unfold Tells Run.write
  by_cases closed : m.sink.isClosed
  · simp only [closed, if_true]
    exact ⟨.refl sane, trivial⟩
  · simp only [closed]
    exact ⟨⟨{ sane with }, rfl, rfl, .nil (.refl _)⟩, trivial⟩

theorem printLine (sane : m.Sane found) (v : Value) :
    Tells found none m (Run.printLine v) [] fun _ _ => True :=
  (write sane v.text).last fun _ _ sane' _ _ _ => write sane' "\n"

theorem clock (sane : m.Sane found) (host : Host) :
    Tells found none m (Run.clock host) [] fun _ _ => True :=
  ⟨⟨{ sane with }, rfl, rfl, .nil (.refl _)⟩, trivial⟩

theorem bindMethod (sane : m.Sane found) {c : Class} {method : FunctionDecl}
    (class' : c.Sane found m.scopes) (member : method ∈ c.methods) (fits : v.Sane found m.scopes) :
    Tells found changing m (Run.bindMethod v c method) [] fun t v => v.Sane found t := by
  obtain ⟨here, follows, among⟩ := class'.declared
  have known := follows.covers.lt_size sane.rooted
  have keeps : m.scopes.Keeps changing _ := .bindThis m.scopes c.scope v
  unfold Tells
  rw [Run.bindMethod_apply]
  refine ⟨⟨?_, rfl, rfl, .nil keeps⟩, class'.placed.of_mem member, class'.shaped.of_mem member,
    here.inMethods, ?_, .inMethods here, ?_⟩
  · refine { sane with
      rooted := (sane.rooted.add known).define _ _ _
      values := fun j other v' held => ?_
      fields := fun j other v' held => (sane.fields j other v' held).mono keeps.preserves }
    rw [Scopes.bindings_bindThis] at held
    split at held
    · rw [Bindings.get?] at held
      split at held
      · cases held
        exact fits.mono keeps.preserves
      · cases held
    · exact (sane.values j other v' held).mono keeps.preserves
  · have alone := Scopes.bindings_bindThis m.scopes c.scope m.scopes.list.size v
    rw [if_pos rfl] at alone
    exact (follows.mono keeps.preserves).inMethods (Scopes.enclosing?_bindThis v known) alone
  · exact fun f part => among (FunctionDecl.findings_subset _ member part)

theorem property (sane : m.Sane found) (fits : v.Sane found m.scopes) :
    Tells found changing m (Run.property v name) [] fun t v => v.Sane found t := by
  cases v with
  | object id c =>
    refine (field? sane id name.lexeme).last fun r m' sane' _ keeps held => ?_
    cases r with
    | some v => exact .pure sane' (held v rfl)
    | none =>
      simp only
      cases chosen : c.method? name.lexeme with
      | none => exact .raise sane'
      | some method =>
        have member := List.mem_reverse.1 (List.mem_of_find?_eq_some chosen)
        exact bindMethod sane' (Class.Sane.mono keeps.preserves fits) member
          (fits.mono keeps.preserves)
  | _ => exact .raise sane

/-- Reading a property is an entry of its own, which leaves what the reading leaves. -/
theorem reading {Q : Scopes Value → Value → Prop} (tells : Tells found changing m (Run.property v name) [] Q)
    (sane : Entry.Sane ⟨site, .property v name, m⟩) :
    Tells found changing m (Run.property v name) [⟨site, .property v name, m⟩] Q := by
  unfold Tells
  rcases tells.cases with ⟨w, m', ran, told, holds⟩ | ⟨stop, m', ran, told, fits⟩ <;> rw [ran]
  · refine ⟨{ told with spans := .single sane told.spans.keeps ?_ }, holds⟩
    simp only [Entry.scopesLeft, ran]
    exact .refl _
  · refine ⟨{ told with spans := .single sane told.spans.keeps ?_ }, fits⟩
    simp only [Entry.scopesLeft, ran]
    exact .refl _

/-- Every parameter is bound, and nothing else is in the scope of a call. -/
theorem defineEach {arguments : List Value} {parameters : List Token} (sane : m.Sane found)
    (stands : Stands m.scopes here active i) (names : ∀ t ∈ parameters, t.Is Token.Spelled [.identifier])
    (all : ∀ v ∈ arguments, v.Sane found m.scopes) (complete : arguments.length = parameters.length) :
    Tells found (some i) m (Run.defineEach i parameters arguments) []
      fun t _ => Stands t (parameters.foldl Surroundings.define here) active i := by
  induction parameters generalizing m here arguments with
  | nil =>
    rw [Run.defineEach]
    · exact .pure sane stands
    · intro _ _ _ _ same
      cases same
  | cons parameter rest ih =>
    cases arguments with
    | nil => cases complete
    | cons argument arguments =>
      rw [Run.defineEach]
      have other := (names parameter (List.mem_cons_self ..)).ne_this
      have keeps := Scopes.Keeps.define m.scopes i argument other
      have fits := all argument (List.mem_cons_self ..)
      have defined := define sane i other (fits.mono keeps.preserves)
      refine Tells.tail defined (fun _ m' sane' _ keeps' same => ?_) .refl .refl
      refine ih sane' ?_ (fun t member => names t (List.mem_cons_of_mem _ member)) (fun v member => ?_)
        (by simpa using complete)
      · rw [same]
        exact stands.define sane.rooted other
      · exact (all v (List.mem_cons_of_mem _ member)).mono keeps'.preserves

/-- The body of a function is executed in a new scope, where `this` is what it is around the function. -/
theorem enter {f : Closure} {arguments : List Value} {body : Run Unit} {inside : Log}
    (sane : m.Sane found) (fits : f.Sane found m.scopes)
    (all : ∀ v ∈ arguments, v.Sane found m.scopes)
    (complete : arguments.length = f.declaration.parameters.length)
    (tells : ∀ (m' : Machine) (here : Surroundings), m'.Sane found →
      Stands m'.scopes here (some f) m'.current →
      Stmt.allFindings here f.declaration.body ⊆ found →
      Tells found (some m'.current) m' body (inside m') fun _ _ => True) :
    Tells found none m (Run.enter f arguments body)
      (Log.following (Run.prepare f arguments)
        (fun scope m => inside { m with current := scope }) m) fun t v => v.Sane found t := by
  obtain ⟨here, follows, classed, among⟩ := fits.declared
  obtain ⟨-, names, -, -⟩ := (FunctionDecl.shaped_iff _).1 fits.shaped
  rw [FunctionDecl.findings_eq] at among
  have known := follows.covers.lt_size sane.rooted
  have new : Scopes.Admits none m.scopes (some m.scopes.list.size) := .new (Nat.le_refl _)
  have prepared : Tells found none m (Run.prepare f arguments) [] fun t i =>
      Stands t (here.inBody f.declaration.parameters) (some f) i ∧ i = m.scopes.list.size := by
    refine (newScope sane known).tail (fun i m₁ sane₁ _ keeps₁ made => ?_) .none new
    obtain ⟨linked, empty, rfl⟩ := made
    have own : Agrees m₁.scopes (some f) f.scope := by
      intro g member
      cases member
      exact ⟨Nat.lt_of_lt_of_le known keeps₁.le.size, rfl⟩
    have fresh : Stands m₁.scopes { here.enter [] with inFunction := true } (some f)
        m.scopes.list.size := .fresh (follows.mono keeps₁.preserves) classed own linked empty
    have bound := defineEach sane₁ fresh names
      (fun v member => (all v member).mono keeps₁.preserves) complete
    exact bound.tail (fun _ m₂ sane₂ _ _ stands => .pure sane₂ ⟨stands, rfl⟩) .refl .refl
  rw [Run.enter_eq]
  refine prepared.step (fun i m' sane' _ _ there => ?_) .none new
  obtain ⟨stands, rfl⟩ := there
  exact .returning (.within (tells { m' with current := m.scopes.list.size } _ { sane' with } stands
    fun f part => among (List.mem_append_right _ part)))

end Tells

end Lox
