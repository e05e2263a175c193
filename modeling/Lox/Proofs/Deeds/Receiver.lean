import Lox.Proofs.Deeds.Units

/-! Bound methods remember their instance, and so do the functions that are declared in their bodies. -/
namespace Lox

variable {m : Machine} {name : Token} {v : Value}

theorem Run.property_apply (id : ObjectId) (c : Class) (name : Token) (m : Machine) :
    Run.property (.object id c) name m =
      match Bindings.get? name.lexeme (m.objects[id]?.getD []) with
      | some value => .ok value m
      | none => match c.method? name.lexeme with
        | some method => Run.bindMethod (.object id c) c method m
        | none => .error (.raised (.runtime name.line (.undefinedProperty name.lexeme))) m := by
  have asked : Run.property (.object id c) name m =
      (match Bindings.get? name.lexeme (m.objects[id]?.getD []) with
      | some value => pure value
      | none => match c.method? name.lexeme with
        | some method => Run.bindMethod (.object id c) c method
        | none => Run.raise name.line (.undefinedProperty name.lexeme)) m := rfl
  rw [asked]
  cases Bindings.get? name.lexeme (m.objects[id]?.getD []) with
  | some value => rfl
  | none => cases c.method? name.lexeme <;> rfl

/-- Reading a property makes at most a scope and an identity. -/
structure Machine.Reads (m m' : Machine) : Prop where
  keeps : m.scopes.Keeps none m'.scopes
  bindings : ∀ i < m.scopes.list.size, m'.scopes.bindings i = m.scopes.bindings i
  objects : m'.objects = m.objects

theorem Machine.Reads.refl (m : Machine) : m.Reads m := ⟨.refl _, fun _ _ => rfl, rfl⟩

theorem Run.property_reads (object : Value) (name : Token) (m : Machine) :
    (∃ value m', Run.property object name m = .ok value m' ∧ m.Reads m') ∨
      ∃ stop, Run.property object name m = .error stop m := by
  cases object with
  | object id c =>
    rw [Run.property_apply]
    cases Bindings.get? name.lexeme (m.objects[id]?.getD []) with
    | some value => exact .inl ⟨value, m, rfl, .refl m⟩
    | none =>
      cases c.method? name.lexeme with
      | none => exact .inr ⟨_, rfl⟩
      | some method =>
        refine .inl ⟨_, _, Run.bindMethod_apply .., .bindThis .., fun i known => ?_, rfl⟩
        exact (Scopes.bindings_bindThis ..).trans (if_neg (Nat.ne_of_lt known))
  | _ => exact .inr ⟨_, rfl⟩

/-- A method that is read is a function in a new scope, where `this` is the instance. -/
theorem Run.property_method {id : ObjectId} {c : Class} {m' : Machine}
    (noField : Bindings.get? name.lexeme (m.objects[id]?.getD []) = none)
    (read : Run.property (.object id c) name m = .ok v m') :
    ∃ method, c.method? name.lexeme = some method ∧
      v = .callable m.identities (.closure ⟨method, m.scopes.list.size⟩) ∧
      m'.scopes.list.size = m.scopes.list.size + 1 ∧
      m'.scopes.self? m.scopes.list.size = some (.object id c) := by
  rw [Run.property_apply, noField] at read
  cases chosen : c.method? name.lexeme with
  | none => simp [chosen] at read
  | some method =>
    simp only [chosen, Run.bindMethod_apply, EStateM.Result.ok.injEq] at read
    obtain ⟨rfl, rfl⟩ := read
    refine ⟨method, rfl, rfl, by simp, Scopes.self?_of_get? ?_⟩
    rw [Scopes.bindings_bindThis, if_pos rfl, Bindings.get?, if_pos rfl]

theorem Entry.preserves_left (e : Entry) : e.machine.scopes.Preserves e.scopesLeft := by
  rw [scopesLeft]
  split
  next object name _ =>
    rcases Run.property_reads object name e.machine with ⟨value, m', ran, reads⟩ | ⟨stop, ran⟩ <;>
      rw [ran]
    · exact reads.keeps.preserves
    · exact .refl _
  next => exact .refl _

namespace Entry

/-- The instance that a method is read from, with the method bound to it. -/
def bound? (e : Entry) : Option (Value × Closure) :=
  match e.deed with
  | .property (.object id c) name =>
    match Bindings.get? name.lexeme (e.machine.objects[id]?.getD []),
      Run.property (.object id c) name e.machine with
    | none, .ok (.callable _ (.closure f)) _ => some (.object id c, f)
    | _, _ => none
  | _ => none

/-- The occurrence of `this` that is read. -/
def asking? (e : Entry) : Option (Occurrence × Token) :=
  match e.deed with
  | .this id keyword => some (id, keyword)
  | _ => none

/-- The function that is declared. -/
def declared? (e : Entry) : Option Closure :=
  match e.deed with
  | .execute (.function declaration) => some ⟨declaration, e.machine.current⟩
  | _ => none

theorem self?_of_bound? {e : Entry} {o : Value} {f : Closure} (bound : e.bound? = some (o, f)) :
    f.scope < e.scopesLeft.list.size ∧ e.scopesLeft.self? f.scope = some o := by
  rw [bound?] at bound
  split at bound
  next id c name deed =>
    split at bound
    next noField read =>
      cases bound
      obtain ⟨method, -, same, size, self⟩ := Run.property_method noField read
      cases same
      rw [scopesLeft, deed]
      simp only [read]
      exact ⟨by rw [size]; exact Nat.lt_succ_self _, self⟩
    next => cases bound
  next => cases bound

theorem deed_of_asking? {e : Entry} {id : Occurrence} {keyword : Token}
    (asking : e.asking? = some (id, keyword)) : e.deed = .this id keyword := by
  rw [asking?] at asking
  split at asking
  next deed =>
    cases asking
    exact deed
  next => cases asking

theorem scope_of_declared? {e : Entry} {f : Closure} (declared : e.declared? = some f) :
    f.scope = e.machine.current := by
  rw [declared?] at declared
  split at declared <;> cases declared
  rfl

end Entry

/-- The functions in whose bodies `this` is to be an instance: the methods that are read from it, and
what is declared in the body of such a function, but not the methods of a class that is. -/
inductive Serves (log : List Entry) (o : Value) : Closure → Prop where
  | method : e ∈ log → e.bound? = some (o, f) → Serves log o f
  | inner : Serves log o g → e ∈ log → e.site.active = some g → e.declared? = some f →
      Serves log o f

/-- Behind the last entry `this` is the instance around each function that serves it. -/
theorem Serves.self? {s t : Scopes Value} {changing : Option ScopeId} {log : List Entry} {o : Value}
    {f : Closure} (serves : Serves log o f) (spans : Spans changing s log t) :
    t.self? f.scope = some o := by
  induction serves with
  | @method e f member bound =>
    obtain ⟨known, self⟩ := Entry.self?_of_bound? bound
    rw [(spans.between e member).2.self? known, self]
  | @inner g e f _ member active declared ih =>
    have later := e.preserves_left.trans (spans.between e member).2
    obtain ⟨older, same⟩ := (spans.sane e member).agrees g (active ▸ rfl)
    rw [Entry.scope_of_declared? declared, later.self? (spans.sane e member).known, same,
      ← later.self? older, ih]

namespace Session

/-- In a function that serves an instance `this` is the instance, whenever and wherever the function is
called. No binding of `this` is ever changed, and reading a property changes no scope and no field. -/
theorem log_receivers (host : Host) (bound : Nat) (outputLimit : Option Nat) (units : List String) :
    (∀ o f, Serves ((start outputLimit).log host bound units) o f →
      ∀ e ∈ (start outputLimit).log host bound units, e.site.active = some f →
        ∀ id keyword, e.deed = .this id keyword →
          Run.readVariable id keyword e.machine = .ok o e.machine) ∧
    ((start outputLimit).log host bound units).Pairwise (fun e e' =>
      ∀ i < e.machine.scopes.list.size,
        (e'.machine.scopes.bindings i).get? Keyword.thisWord.spelling =
          (e.machine.scopes.bindings i).get? Keyword.thisWord.spelling) ∧
    ∀ object name m, (∃ value m', Run.property object name m = .ok value m' ∧ m.Reads m') ∨
      ∃ stop, Run.property object name m = .error stop m := by
  obtain ⟨t, spans⟩ := (start_sane outputLimit).log host bound units
  refine ⟨fun o f serves e member active id keyword deed => ?_, ?_, Run.property_reads⟩
  · obtain ⟨value, self, read⟩ := (spans.sane e member).this id keyword deed
    obtain ⟨older, same⟩ := (spans.sane e member).agrees f (active ▸ rfl)
    have later := e.preserves_left.trans (spans.between e member).2
    have around : e.machine.scopes.self? f.scope = some o := by
      rw [← later.self? older, serves.self? spans]
    rw [self, around] at same
    cases same
    exact read
  · refine spans.ordered.imp fun {e e'} preserves i known => ?_
    exact (e.preserves_left.trans preserves).this i known

/-- A function is declared in a method and called in a later unit, when the method has returned. -/
def lateReading : List Entry :=
  (start none).log ⟨fun _ => 0, some maxCallDepth⟩ 8
    ["class A { m() { fun g() { this; } return g; } } var g = A().m();", "g();"]

end Session

/-- The tokens and occurrences of a function that only asks for `this`, or only returns such a one. -/
def FunctionDecl.sketch? : FunctionDecl → Option (List Token × List Occurrence)
  | ⟨f, [], [.expression (.this i this)]⟩ => some ([f, this], [i])
  | ⟨f, [], [.function ⟨g, [], [.expression (.this i this)]⟩, .ret keyword (some (.read j name))]⟩ =>
    some ([f, g, this, keyword, name], [i, j])
  | _ => none

theorem FunctionDecl.eq_of_sketch? {f g : FunctionDecl} {sketch : List Token × List Occurrence}
    (first : f.sketch? = some sketch) (second : g.sketch? = some sketch) : f = g := by
  unfold sketch? at first second
  split at first <;> cases first <;> split at second <;> cases second <;> rfl

def Closure.sketch? (f : Closure) : Option ((List Token × List Occurrence) × ScopeId) :=
  f.declaration.sketch?.map (·, f.scope)

theorem Closure.eq_of_sketch? {first second : Option Closure}
    (same : first.bind sketch? = second.bind sketch?) (known : (first.bind sketch?).isSome) :
    ∃ f, first = some f ∧ second = some f := by
  obtain ⟨both, sketched⟩ := Option.isSome_iff_exists.1 known
  obtain ⟨⟨f, i⟩, rfl, here⟩ := Option.bind_eq_some_iff.1 sketched
  obtain ⟨⟨g, j⟩, rfl, there⟩ := Option.bind_eq_some_iff.1 (same.symm.trans sketched)
  obtain ⟨sketch, drawn, rfl⟩ := Option.map_eq_some_iff.1 here
  obtain ⟨sketch', drawn', equal⟩ := Option.map_eq_some_iff.1 there
  cases equal
  obtain rfl : g = f := FunctionDecl.eq_of_sketch? drawn' drawn
  exact ⟨_, rfl, rfl⟩

namespace Session

theorem lateReading_receivers : ∃ o g, Serves lateReading o g ∧ g.declaration.name.lexeme = "g" ∧
    ∃ e ∈ lateReading, e.site.active = some g ∧ ∃ id keyword, e.deed = .this id keyword ∧
      Run.readVariable id keyword e.machine = .ok o e.machine := by
  have all := log_receivers ⟨fun _ => 0, some maxCallDepth⟩ 8 none
    ["class A { m() { fun g() { this; } return g; } } var g = A().m();", "g();"]
  let read := (lateReading[3]?.bind Entry.bound?).map (·.2)
  let declared := lateReading[4]?.bind Entry.declared?
  have entered : read.bind Closure.sketch? = (lateReading[4]?.bind (·.site.active)).bind Closure.sketch? ∧
      (read.bind Closure.sketch?).isSome := by
    decide +kernel
  have called : declared.bind Closure.sketch? =
      (lateReading[9]?.bind (·.site.active)).bind Closure.sketch? ∧
      (declared.bind Closure.sketch?).isSome := by
    decide +kernel
  have asked : (lateReading[9]?.bind Entry.asking?).isSome ∧
      declared.map (·.declaration.name.lexeme) = some "g" := by
    decide +kernel
  obtain ⟨f, method, active⟩ := Closure.eq_of_sketch? entered.1 entered.2
  obtain ⟨g, inside, active'⟩ := Closure.eq_of_sketch? called.1 called.2
  obtain ⟨⟨o, f'⟩, bound, rfl⟩ := Option.map_eq_some_iff.1 method
  obtain ⟨e, atThree, bound⟩ := Option.bind_eq_some_iff.1 bound
  obtain ⟨e₁, atFour, active⟩ := Option.bind_eq_some_iff.1 active
  obtain ⟨e₁', atFour', inside⟩ := Option.bind_eq_some_iff.1 inside
  obtain rfl : e₁ = e₁' := Option.some.inj (atFour.symm.trans atFour')
  obtain ⟨e₂, atNine, active'⟩ := Option.bind_eq_some_iff.1 active'
  obtain ⟨⟨id, keyword⟩, asking⟩ := Option.isSome_iff_exists.1 asked.1
  rw [atNine, Option.bind_some] at asking
  have serves : Serves lateReading o g :=
    .inner (.method (List.mem_of_getElem? atThree) bound) (List.mem_of_getElem? atFour) active inside
  have deed := Entry.deed_of_asking? asking
  have member := List.mem_of_getElem? atNine
  refine ⟨o, g, serves, ?_, e₂, member, active', id, keyword, deed, ?_⟩
  · have named := asked.2
    simp only [declared, atFour, Option.bind_some, inside, Option.map_some] at named
    exact Option.some.inj named
  · exact all.1 o g serves e₂ member active' id keyword deed

end Session

end Lox
