import Lox.Proofs.Scoping.Lookup
import Lox.Proofs.Scoping.Chain
import Lox.Proofs.Scoping.Trace

/-! What two actions have in common that differ in their bounds alone, where the bounds are large enough:
they come to the same, they stop for want of a bound neither of them, and they go through no more than so
many points. The store then still holds no other functions than such as it held. -/
namespace Lox

variable (P : FunctionDecl → Prop)

/-- What is called are functions with a property. -/
def Callable.Holds : Callable → Prop
  | .native _ => True
  | .closure f => P f.declaration
  | .ofClass c => ∀ f ∈ c.methods, P f

/-- The functions that can be reached from a value alone have a property. -/
def Value.Holds : Value → Prop
  | .callable _ what => what.Holds P
  | .object _ c => ∀ f ∈ c.methods, P f
  | .nil | .boolean _ | .number _ | .string _ => True

/-- All functions in the store have a property. -/
structure Machine.Holds (m : Machine) : Prop where
  values : ∀ i name v, (m.scopes.bindings i).get? name = some v → v.Holds P
  fields : ∀ (i : ObjectId) name v, Bindings.get? name (m.objects[i]?.getD []) = some v → v.Holds P

/-- Stopped, but not for want of a bound. -/
def Stop.Holds : Stop → Prop
  | .returned value _ => value.Holds P
  | .exhausted => False
  | .raised _ | .meaningless _ => True

/-- As deep in calls as before, and with functions of the same property in the store. -/
structure Machine.Keeps (m m' : Machine) : Prop where
  holds : m'.Holds P
  depth : m'.depth = m.depth

/-- `x` and `y` come to the same through at most `cost` points. -/
structure Settles (m : Machine) (x y : Run α) (points : List Point) (cost : Nat) (Q : α → Prop) :
    Prop where
  same : x m = y m
  short : points.length ≤ cost
  ends : match x m with
    | .ok v m' => m.Keeps P m' ∧ Q v
    | .error stop m' => m.Keeps P m' ∧ stop.Holds P

variable {P} {m m' k : Machine} {x y : Run α} {points : List Point} {c d : Nat} {Q : α → Prop}

theorem Value.holds_ofConstant (value : Constant) : (Value.ofConstant value : Value).Holds P := by
  cases value <;> trivial

theorem Machine.Holds.keeps (holds : m.Holds P) : m.Keeps P m := ⟨holds, rfl⟩

theorem Machine.Keeps.trans (first : m.Keeps P k) (second : k.Keeps P m') : m.Keeps P m' :=
  ⟨second.holds, second.depth.trans first.depth⟩

namespace Settles

theorem cases (settles : Settles P m x y points c Q) :
    (∃ v m', x m = .ok v m' ∧ y m = .ok v m' ∧ m.Keeps P m' ∧ Q v) ∨
    ∃ stop m', x m = .error stop m' ∧ y m = .error stop m' ∧ m.Keeps P m' ∧ stop.Holds P := by
  obtain ⟨same, -, ends⟩ := settles
  split at ends
  next v m' ran => exact .inl ⟨v, m', ran, same ▸ ran, ends⟩
  next stop m' ran => exact .inr ⟨stop, m', ran, same ▸ ran, ends⟩

theorem of_ok {v : α} (ran : x m = .ok v k) (ran' : y m = .ok v k) (short : points.length ≤ c)
    (keeps : m.Keeps P k) (holds : Q v) : Settles P m x y points c Q := by
  constructor
  · rw [ran, ran']
  · exact short
  · rw [ran]
    exact ⟨keeps, holds⟩

theorem of_error {stop : Stop} (ran : x m = .error stop k) (ran' : y m = .error stop k)
    (short : points.length ≤ c) (keeps : m.Keeps P k) (holds : stop.Holds P) :
    Settles P m x y points c Q := by
  constructor
  · rw [ran, ran']
  · exact short
  · rw [ran]
    exact ⟨keeps, holds⟩

theorem pure {v : α} (holds : m.Holds P) (value : Q v) : Settles P m (pure v) (pure v) [] c Q :=
  .of_ok rfl rfl (Nat.zero_le c) holds.keeps value

theorem throw {stop : Stop} (holds : m.Holds P) (stopped : stop.Holds P) :
    Settles P m (throw stop) (throw stop) [] c Q :=
  .of_error rfl rfl (Nat.zero_le c) holds.keeps stopped

theorem raise (holds : m.Holds P) : Settles P m (Run.raise line e) (Run.raise line e) [] c Q :=
  throw holds trivial

theorem mono {R : α → Prop} (settles : Settles P m x y points c Q) (le : c ≤ d)
    (weaker : ∀ v, Q v → R v) : Settles P m x y points d R := by
  have short := Nat.le_trans settles.short le
  rcases settles.cases with ⟨v, m', ran, ran', keeps, value⟩ | ⟨stop, m', ran, ran', keeps, stopped⟩
  · exact .of_ok ran ran' short keeps (weaker v value)
  · exact .of_error ran ran' short keeps stopped

theorem widen (settles : Settles P m x y points c Q) (le : c ≤ d) : Settles P m x y points d Q :=
  settles.mono le fun _ => id

/-- The points of both parts count. -/
theorem bind {f g : α → Run β} {then' : α → Points} {R : β → Prop}
    (first : Settles P m x y points c Q)
    (second : ∀ v k, k.Holds P → k.depth = m.depth → Q v → Settles P k (f v) (g v) (then' v k) d R) :
    Settles P m (x >>= f) (y >>= g) (points ++ Points.following x then' m) (c + d) R := by
  have short := first.short
  rcases first.cases with ⟨v, k, ran, ran', keeps, value⟩ | ⟨stop, k, ran, ran', keeps, stopped⟩
  · have later := second v k keeps.holds keeps.depth value
    have short' := later.short
    have behind : Points.following x then' m = then' v k := by rw [Points.following, ran]
    have length : (points ++ Points.following x then' m).length ≤ c + d := by
      rw [behind, List.length_append]
      omega
    rcases later.cases with ⟨w, m', ran₂, ran₂', keeps', value'⟩ |
      ⟨stop, m', ran₂, ran₂', keeps', stopped⟩
    · apply of_ok (v := w) (k := m') _ _ length (keeps.trans keeps') value'
      · simp only [Bind.bind, EStateM.bind, ran, ran₂]
      · simp only [Bind.bind, EStateM.bind, ran', ran₂']
    · apply of_error (k := m') _ _ length (keeps.trans keeps') stopped
      · simp only [Bind.bind, EStateM.bind, ran, ran₂]
      · simp only [Bind.bind, EStateM.bind, ran', ran₂']
  · have behind : Points.following x then' m = [] := by rw [Points.following, ran]
    have length : (points ++ Points.following x then' m).length ≤ c + d := by
      rw [behind, List.append_nil]
      omega
    apply of_error (k := k) _ _ length keeps stopped
    · simp only [Bind.bind, EStateM.bind, ran]
    · simp only [Bind.bind, EStateM.bind, ran']

/-- An action without points comes first. -/
theorem step {f g : α → Run β} {then' : α → Points} {R : β → Prop}
    (first : Settles P m x y [] 0 Q)
    (second : ∀ v k, k.Holds P → k.depth = m.depth → Q v → Settles P k (f v) (g v) (then' v k) d R) :
    Settles P m (x >>= f) (y >>= g) (Points.following x then' m) d R :=
  (first.bind second).widen (by omega)

/-- An action without points comes last. -/
theorem last {f g : α → Run β} {R : β → Prop} (first : Settles P m x y points c Q)
    (second : ∀ v k, k.Holds P → k.depth = m.depth → Q v → Settles P k (f v) (g v) [] 0 R) :
    Settles P m (x >>= f) (y >>= g) points c R := by
  have both : Settles P m (x >>= f) (y >>= g)
      (points ++ Points.following x (fun _ _ => []) m) (c + 0) R := first.bind second
  have none : Points.following x (fun _ _ => []) m = [] := by
    unfold Points.following
    split <;> rfl
  rwa [none, List.append_nil] at both

theorem asking {f g : Machine → Run α} (settles : Settles P m (f m) (g m) points c Q) :
    Settles P m (get >>= f) (get >>= g) points c Q := ⟨settles.same, settles.short, settles.ends⟩

theorem visit {doing : Doing} (settles : Settles P m x y points c Q) :
    Settles P m x y (⟨doing, m⟩ :: points) (c + 1) Q :=
  ⟨settles.same, Nat.succ_le_succ settles.short, settles.ends⟩

theorem within {scope : ScopeId} (settles : Settles P { m with current := scope } x y points c Q) :
    Settles P m (Run.within scope x) (Run.within scope y) points c Q := by
  rcases settles.cases with ⟨v, m', ran, ran', keeps, value⟩ | ⟨stop, m', ran, ran', keeps, stopped⟩
  · apply of_ok (v := v) (k := { m' with current := m.current }) _ _ settles.short _ value
    · rw [Run.within, ran]
    · rw [Run.within, ran']
    · exact ⟨⟨keeps.holds.values, keeps.holds.fields⟩, keeps.depth⟩
  · apply of_error (k := { m' with current := m.current }) _ _ settles.short _ stopped
    · rw [Run.within, ran]
    · rw [Run.within, ran']
    · exact ⟨⟨keeps.holds.values, keeps.holds.fields⟩, keeps.depth⟩

theorem counted (settles : Settles P { m with depth := m.depth + 1 } x y points c Q) :
    Settles P m (Run.counted x) (Run.counted y) points c Q := by
  rcases settles.cases with ⟨v, m', ran, ran', keeps, value⟩ | ⟨stop, m', ran, ran', keeps, stopped⟩
  · apply of_ok (v := v) (k := { m' with depth := m'.depth - 1 }) _ _ settles.short _ value
    · rw [Run.counted, ran]
    · rw [Run.counted, ran']
    · exact ⟨⟨keeps.holds.values, keeps.holds.fields⟩, by simp [keeps.depth]⟩
  · apply of_error (k := { m' with depth := m'.depth - 1 }) _ _ settles.short _ stopped
    · rw [Run.counted, ran]
    · rw [Run.counted, ran']
    · exact ⟨⟨keeps.holds.values, keeps.holds.fields⟩, by simp [keeps.depth]⟩

theorem returning {x y : Run Unit} {Q : Unit → Prop} (settles : Settles P m x y points c Q) :
    Settles P m (Run.returning x) (Run.returning y) points c (·.Holds P) := by
  rcases settles.cases with ⟨v, m', ran, ran', keeps, value⟩ | ⟨stop, m', ran, ran', keeps, stopped⟩
  · apply of_ok (v := .nil) (k := m') _ _ settles.short keeps trivial
    · rw [Run.returning, ran]
    · rw [Run.returning, ran']
  · cases stop with
    | returned v line =>
      apply of_ok (v := v) (k := m') _ _ settles.short keeps stopped
      · rw [Run.returning, ran]
      · rw [Run.returning, ran']
    | exhausted => cases stopped
    | _ =>
      apply of_error (k := m') _ _ settles.short keeps stopped
      · rw [Run.returning, ran]
      · rw [Run.returning, ran']

section

variable {v : Value}

/-- An action that takes nothing but the machine settles if it keeps what the machine holds. -/
theorem alone (short : points.length ≤ c)
    (ends : match x m with
      | .ok v m' => m.Keeps P m' ∧ Q v
      | .error stop m' => m.Keeps P m' ∧ stop.Holds P) : Settles P m x x points c Q :=
  ⟨rfl, short, ends⟩

theorem negate (holds : m.Holds P) (operator : Token) (operand : Value) :
    Settles P m (Run.negate operator operand) (Run.negate operator operand) [] 0 (·.Holds P) := by
  cases operand with
  | number x => exact .pure holds trivial
  | _ => exact .raise holds

theorem applyUnary (holds : m.Holds P) (operator : Token) (operand : Value) :
    Settles P m (Run.applyUnary operator operand) (Run.applyUnary operator operand) [] 0
      (·.Holds P) := by
  unfold Run.applyUnary
  split
  · exact negate holds operator operand
  · exact .pure holds trivial
  · exact .throw holds trivial

theorem numeric (holds : m.Holds P) (operator : Token) (left right : Value)
    {result : Float → Float → Value} (value : ∀ x y, (result x y).Holds P) :
    Settles P m (Run.numeric operator left right result) (Run.numeric operator left right result) [] 0
      (·.Holds P) := by
  unfold Run.numeric
  split
  · exact .pure holds (value _ _)
  · exact .raise holds

theorem add (holds : m.Holds P) (operator : Token) (left right : Value) :
    Settles P m (Run.add operator left right) (Run.add operator left right) [] 0 (·.Holds P) := by
  unfold Run.add
  split
  · exact .pure holds trivial
  · exact .pure holds trivial
  · exact .raise holds

theorem applyBinary (holds : m.Holds P) (operator : Token) (left right : Value) :
    Settles P m (Run.applyBinary operator left right) (Run.applyBinary operator left right) [] 0
      (·.Holds P) := by
  unfold Run.applyBinary
  split
  any_goals exact numeric holds operator left right fun _ _ => trivial
  · exact .pure holds trivial
  · exact .pure holds trivial
  · exact add holds operator left right
  · exact .throw holds trivial

theorem readVariable (holds : m.Holds P) (id : Occurrence) (name : Token) :
    Settles P m (Run.readVariable id name) (Run.readVariable id name) [] 0 (·.Holds P) := by
  apply alone (Nat.le_refl 0)
  rw [Run.readVariable_apply]
  cases found : (m.scopeOf id name).bind fun i => (m.scopes.bindings i).get? name.lexeme with
  | none => exact ⟨holds.keeps, trivial⟩
  | some v =>
    obtain ⟨i, -, bound⟩ := Option.bind_eq_some_iff.1 found
    exact ⟨holds.keeps, holds.values i _ v bound⟩

theorem define (holds : m.Holds P) (i : ScopeId) (name : String) (value : v.Holds P) :
    Settles P m (Run.define i name v) (Run.define i name v) [] 0 fun _ => True := by
  have kept : ∀ j other w, ((m.scopes.define i name v).bindings j).get? other = some w →
      w.Holds P := by
    intro j other w found
    rw [Scopes.bindings_define] at found
    split at found
    · by_cases same : other = name
      · rw [same, Bindings.get?_put_same] at found
        cases found
        exact value
      · rw [Bindings.get?_put_other _ same] at found
        exact holds.values i other w found
    · exact holds.values j other w found
  exact alone (Nat.le_refl 0) ⟨⟨⟨kept, holds.fields⟩, rfl⟩, trivial⟩

theorem assignVariable (holds : m.Holds P) (id : Occurrence) (name : Token) (value : v.Holds P) :
    Settles P m (Run.assignVariable id name v) (Run.assignVariable id name v) [] 0
      fun _ => True := by
  apply alone (Nat.le_refl 0)
  rw [Run.assignVariable_apply]
  cases (m.scopeOf id name).filter fun i => (m.scopes.bindings i).binds name.lexeme with
  | none => exact ⟨holds.keeps, trivial⟩
  | some i => exact (define holds i name.lexeme value).ends

theorem newScope (holds : m.Holds P) (i : ScopeId) :
    Settles P m (Run.newScope i) (Run.newScope i) [] 0 fun _ => True := by
  have kept : ∀ j name w, ((m.scopes.add (some i)).1.bindings j).get? name = some w → w.Holds P := by
    intro j name w found
    rw [Scopes.bindings_add] at found
    exact holds.values j name w found
  exact alone (Nat.le_refl 0) ⟨⟨⟨kept, holds.fields⟩, rfl⟩, trivial⟩

theorem newCallable (holds : m.Holds P) {what : Callable} (called : what.Holds P) :
    Settles P m (Run.newCallable what) (Run.newCallable what) [] 0 (·.Holds P) :=
  alone (Nat.le_refl 0) ⟨⟨⟨holds.values, holds.fields⟩, rfl⟩, called⟩

theorem newObject (holds : m.Holds P) {c : Class} (methods : ∀ f ∈ c.methods, P f) :
    Settles P m (Run.newObject c) (Run.newObject c) [] 0 (·.Holds P) := by
  have kept : ∀ (i : ObjectId) name w,
      Bindings.get? name ((m.objects.push [])[i]?.getD []) = some w → w.Holds P := by
    intro i name w found
    rw [Array.getElem?_push] at found
    split at found
    · cases found
    · exact holds.fields i name w found
  exact alone (Nat.le_refl 0) ⟨⟨⟨holds.values, kept⟩, rfl⟩, methods⟩

theorem field? (holds : m.Holds P) (id : ObjectId) (name : String) :
    Settles P m (Run.field? id name) (Run.field? id name) [] 0 fun r => ∀ v ∈ r, v.Holds P :=
  alone (Nat.le_refl 0) ⟨holds.keeps, fun v found => holds.fields id name v found⟩

theorem setField (holds : m.Holds P) (id : ObjectId) (name : String) (value : v.Holds P) :
    Settles P m (Run.setField id name v) (Run.setField id name v) [] 0 fun _ => True := by
  have kept : ∀ (i : ObjectId) other w,
      Bindings.get? other ((m.objects.modify id (·.put name v))[i]?.getD []) = some w →
        w.Holds P := by
    intro i other w found
    rw [Array.getElem?_modify] at found
    split at found
    · cases before : m.objects[i]? with
      | none =>
        rw [before] at found
        cases found
      | some list =>
        simp only [before, Option.map_some, Option.getD_some] at found
        by_cases same : other = name
        · rw [same, Bindings.get?_put_same] at found
          cases found
          exact value
        · rw [Bindings.get?_put_other _ same] at found
          exact holds.fields i other w (by rwa [before])
    · exact holds.fields i other w found
  exact alone (Nat.le_refl 0) ⟨⟨⟨holds.values, kept⟩, rfl⟩, trivial⟩

theorem write (holds : m.Holds P) (text : String) :
    Settles P m (Run.write text) (Run.write text) [] 0 fun _ => True := by
  apply alone (Nat.le_refl 0)
  unfold Run.write
  by_cases closed : m.sink.isClosed
  · simp only [closed, if_true]
    exact ⟨holds.keeps, trivial⟩
  · simp only [closed]
    exact ⟨⟨⟨holds.values, holds.fields⟩, rfl⟩, trivial⟩

theorem printLine (holds : m.Holds P) (v : Value) :
    Settles P m (Run.printLine v) (Run.printLine v) [] 0 fun _ => True :=
  (write holds v.text).last fun _ _ holds _ _ => write holds "\n"

theorem clock (holds : m.Holds P) (host : Host) :
    Settles P m (Run.clock host) (Run.clock host) [] 0 fun _ => True :=
  alone (Nat.le_refl 0) ⟨⟨⟨holds.values, holds.fields⟩, rfl⟩, trivial⟩

theorem bindMethod (holds : m.Holds P) {c : Class} {method : FunctionDecl} (property : P method)
    (object : v.Holds P) :
    Settles P m (Run.bindMethod v c method) (Run.bindMethod v c method) [] 0 (·.Holds P) := by
  apply (newScope holds c.scope).last
  intro i k holds _ _
  apply (define holds i Keyword.thisWord.spelling object).last
  intro _ k holds _ _
  exact newCallable holds property

theorem property (holds : m.Holds P) (name : Token) (value : v.Holds P) :
    Settles P m (Run.property v name) (Run.property v name) [] 0 (·.Holds P) := by
  cases v with
  | object id c =>
    apply (field? holds id name.lexeme).last
    intro r k holds _ found
    cases r with
    | some w => exact .pure holds (found w rfl)
    | none =>
      cases chosen : c.method? name.lexeme with
      | none => exact .raise holds
      | some method =>
        have member := List.mem_reverse.1 (List.mem_of_find?_eq_some chosen)
        exact bindMethod holds (value method member) value
  | _ => exact .raise holds

theorem defineEach {i : ScopeId} {arguments : List Value} {parameters : List Token}
    (holds : m.Holds P) (all : ∀ v ∈ arguments, v.Holds P) :
    Settles P m (Run.defineEach i parameters arguments) (Run.defineEach i parameters arguments) [] 0
      fun _ => True := by
  induction parameters generalizing m arguments with
  | nil => exact .pure holds trivial
  | cons parameter rest ih =>
    cases arguments with
    | nil => exact .pure holds trivial
    | cons argument arguments =>
      apply (define holds i parameter.lexeme (all argument (List.mem_cons_self ..))).last
      intro _ k holds _ _
      exact ih holds fun v member => all v (List.mem_cons_of_mem _ member)

theorem prepare {f : Closure} {arguments : List Value} (holds : m.Holds P)
    (all : ∀ v ∈ arguments, v.Holds P) :
    Settles P m (Run.prepare f arguments) (Run.prepare f arguments) [] 0 fun _ => True := by
  apply (newScope holds f.scope).last
  intro i k holds _ _
  apply (defineEach holds all).last
  intro _ k holds _ _
  exact .pure holds trivial

/-- A native function ends, and there is no function in its answer. -/
theorem native (holds : m.Holds P) (host : Host) (bound bound' : Nat) (which : Native)
    (arguments : List Value) (line : Nat) :
    Settles P m (Run.invoke host bound (.native which) arguments line)
      (Run.invoke host bound' (.native which) arguments line) [] 0 (·.Holds P) := by
  rw [Run.invoke, Run.invoke]
  apply (clock holds host).last
  intro now k holds _ _
  cases answered : which.answer now arguments with
  | ok v =>
    obtain ⟨c, rfl⟩ := Native.exists_constant answered
    exact .pure holds (Value.holds_ofConstant c)
  | error text => exact .raise holds

/-- What may be called is called only where the limit leaves room. -/
theorem admitted (holds : m.Holds P) (limit : Nat) {callee : Value} (value : callee.Holds P)
    (arguments : List Value) (line : Nat) :
    Settles P m (Run.admitted (some limit) callee arguments line)
      (Run.admitted (some limit) callee arguments line) [] 0
      fun what => what.Holds P ∧ m.depth < limit := by
  cases callee with
  | callable identity what =>
    rw [Run.admitted]
    by_cases complete : arguments.length = what.arity
    · simp only [complete, ne_eq, not_true_eq_false, if_false]
      apply asking
      by_cases deep : limit ≤ m.depth
      · simp only [Option.any_some, deep, decide_true, if_true]
        exact .raise holds
      · simp only [Option.any_some, deep, decide_false]
        exact .pure holds ⟨value, Nat.lt_of_not_le deep⟩
    · simp only [complete, ne_eq, not_false_eq_true, if_true]
      exact .raise holds
  | _ => exact .raise holds

end

end Settles

end Lox
