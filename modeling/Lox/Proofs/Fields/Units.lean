import Lox.Proofs.Deeds.Receiver
import Lox.Proofs.Fields.Evaluation
import Lox.Proofs.Unit

/-! Histories of sessions. A field holds what was last stored in it, whatever else was done in between, and
every call of a class makes an instance that was not there. -/
namespace Lox

namespace Session

/-- The calls that one unit begins, which are none if it is refused. -/
def unitStarts (host : Host) (bound : Nat) (source : String) (s : Session) : List Start :=
  match Lox.compile source s.fresh with
  | (.error _, _) => []
  | (.ok program, _) =>
    match (Lox.resolve program).filterMap Finding.error? with
    | [] => Run.programStarts host bound program (note (Lox.resolve program) s.machine)
    | _ => []

/-- The calls that units begin one after the other. -/
def starts (host : Host) (bound : Nat) : List String → Session → List Start
  | [], _ => []
  | source :: rest, s =>
    s.unitStarts host bound source ++ starts host bound rest (s.run host bound source).2

/-- The machine when a unit is resolved, whether it is refused or not. -/
def noted (source : String) (s : Session) : Machine :=
  match Lox.compile source s.fresh with
  | (.error _, _) => s.machine
  | (.ok program, _) => note (Lox.resolve program) s.machine

variable {made : List Class} {s : Session}

theorem start_populated (limit : Option Nat) : (start limit).machine.Populated [] := by
  refine ⟨rfl, fun i name v held => ?_, fun id name v held => ?_⟩
  · by_cases first : i = globals
    · subst first
      have only : (start limit).machine.scopes.bindings globals =
          [(Native.clock.name, .callable 0 (.native .clock))] := rfl
      rw [only, Bindings.get?] at held
      split at held <;> cases held
      exact Nat.zero_lt_one
    · have none : (start limit).machine.scopes.bindings i = [] := by
        refine (Scopes.bindings_define_of_ne first).trans ((Scopes.bindings_add i).trans ?_)
        exact Scopes.bindings_of_size_le (Nat.zero_le i)
      rw [none] at held
      cases held
  · cases held

/-- What one unit does, from the machine in which it is resolved. -/
theorem run_remembers (host : Host) (bound : Nat) (source : String)
    (populated : s.machine.Populated made) :
    Remembers made (s.noted source) (s.unitLog host bound source) (s.unitStarts host bound source)
      (s.run host bound source).2.machine := by
  rw [run_eq, noted, unitLog, unitStarts]
  cases Lox.compile source s.fresh with
  | mk result fresh =>
    cases result with
    | error errors => exact .refl populated
    | ok program =>
      have resolved : (note (Lox.resolve program) s.machine).Populated made := { populated with }
      cases clean : (Lox.resolve program).filterMap Finding.error? with
      | cons first rest =>
        simp only [clean]
        exact .refl resolved
      | nil =>
        have recalls := Stmt.allRecalls (.call host bound) bound none program resolved
        simp only [clean]
        rcases recalls.cases with ⟨_, m, ran, told, -⟩ | ⟨stop, m, ran, told, -⟩ <;> simp only [ran]
        · exact told
        · exact told

/-- Resolving a unit changes neither instances nor scopes. -/
theorem run_recorded (host : Host) (bound : Nat) (source : String)
    (populated : s.machine.Populated made) :
    Recorded made s.machine (s.unitLog host bound source) (s.unitStarts host bound source)
      (s.run host bound source).2.machine := by
  have told := (run_remembers host bound source populated).toRecorded
  rw [noted] at told
  cases compiled : Lox.compile source s.fresh with
  | mk result fresh =>
    cases result with
    | error errors =>
      simp only [compiled] at told
      exact told
    | ok program =>
      simp only [compiled] at told
      exact { told with }

theorem log_recorded (host : Host) (bound : Nat) (units : List String)
    (populated : s.machine.Populated made) :
    Recorded made s.machine (s.log host bound units) (s.starts host bound units)
      (s.runEach host bound units).2.machine := by
  induction units generalizing made s with
  | nil =>
    exact .cons (e := ⟨⟨none, none⟩, .rest, s.machine⟩) populated trivial (fun _ => rfl) (.refl populated)
  | cons source rest ih =>
    have first := run_recorded host bound source populated
    refine .cons (e := ⟨⟨none, none⟩, .rest, s.machine⟩) populated trivial (fun _ => rfl) ?_
    exact first.trans (ih first.populated)

end Session

/-- A scope or a field has the value. -/
def Machine.Holding (m : Machine) (v : Value) : Prop :=
  (∃ i name, (m.scopes.bindings i).get? name = some v) ∨ ∃ id name, m.contents id name = some v

theorem Machine.Populated.known {made : List Class} {m : Machine} {v : Value}
    (populated : m.Populated made) (holding : m.Holding v) : v.Known made m := by
  rcases holding with ⟨i, name, held⟩ | ⟨id, name, held⟩
  · exact populated.values i name v held
  · exact populated.fields id name v held

/-- The value is found where the entry is, or something is done with it. -/
def Entry.Mentions (e : Entry) (v : Value) : Prop :=
  e.machine.Holding v ∨ (∃ name, e.deed = .property v name) ∨ ∃ id name, e.deed = .store id name v

theorem Entry.Known.class_eq {made : List Class} {e : Entry} {id : ObjectId} {c : Class}
    (known : e.Known made) (mentions : e.Mentions (.object id c)) : made[id]? = some c := by
  obtain ⟨now, among, populated, deed⟩ := known
  have there : Value.Known now e.machine (.object id c) := by
    rcases mentions with holding | ⟨name, same⟩ | ⟨other, name, same⟩
    · exact populated.known holding
    · rw [same] at deed
      exact deed
    · rw [same] at deed
      exact deed.2
  have later : Later now e.machine made e.machine := ⟨among, Nat.le_refl _⟩
  exact there.mono later

/-- Reading the property gives a callable that is nowhere yet: the method in a new scope, where `this` is
the object. -/
def Run.BindsAnew (object : Value) (name : Token) (method : FunctionDecl) (m : Machine) : Prop :=
  (∀ what, ¬m.Holding (.callable m.identities what)) ∧
  ∃ m', property object name m =
      .ok (.callable m.identities (.closure ⟨method, m.scopes.list.size⟩)) m' ∧
    m'.scopes.self? m.scopes.list.size = some object ∧ m'.contents = m.contents

theorem Run.property_bindsAnew {made : List Class} {m : Machine} {id : ObjectId} {c : Class}
    {name : Token} {method : FunctionDecl} (populated : m.Populated made)
    (noField : m.contents id name.lexeme = none) (chosen : c.method? name.lexeme = some method) :
    BindsAnew (.object id c) name method m := by
  refine ⟨fun what holding => Nat.lt_irrefl _ (populated.known holding), ?_⟩
  have read := property_apply id c name m
  rw [show Bindings.get? name.lexeme (m.objects[id]?.getD []) = none from noField] at read
  simp only [chosen, bindMethod_apply] at read
  refine ⟨_, read, Scopes.self?_of_get? ?_, rfl⟩
  rw [Scopes.bindings_bindThis, if_pos rfl, Bindings.get?, if_pos rfl]

theorem Run.counted_ofClass (host : Host) (n : Nat) (c : Class) (arguments : List Value) (line : Nat)
    (m : Machine) : counted (invoke host n (.ofClass c) arguments line) m =
      .ok (.object m.objects.size c) { m with objects := m.objects.push [] } := by
  cases n <;> rfl

namespace Expr

/-- An assignment to a property stores when its object and then its value have come to their ends, if the
object is an instance. Otherwise it does nothing of its own. -/
def StoresLast (object : Expr) (name : Token) (value : Expr) : Prop :=
  ∀ (call : Caller) (inside : CallLog) (site : Site) (m : Machine),
    let result := (Expr.set object name value).evaluate call m
    let log := (Expr.set object name value).log call inside site m
    let before := object.log call inside site m
    match object.evaluate call m with
    | .ok (.object id _) k =>
      match value.evaluate call k with
      | .ok v l =>
        result = .ok v { l with objects := l.objects.modify id (·.put name.lexeme v) } ∧
          log = before ++ (value.log call inside site k ++ [⟨site, .store id name v, l⟩])
      | .error stop l => result = .error stop l ∧ log = before ++ value.log call inside site k
    | .ok _ k =>
      result = .error (.raised (.runtime name.line .notInstanceField)) k ∧ log = before
    | .error stop k => result = .error stop k ∧ log = before

theorem set_storesLast (object : Expr) (name : Token) (value : Expr) :
    StoresLast object name value := by
  intro call inside site m
  simp only [Expr.evaluate, Expr.log, Log.following, Bind.bind, EStateM.bind]
  cases object.evaluate call m with
  | error stop k => exact ⟨rfl, List.append_nil _⟩
  | ok v k =>
    cases v with
    | object id c =>
      simp only [EStateM.bind]
      cases value.evaluate call k with
      | ok v l => exact ⟨rfl, rfl⟩
      | error stop l => exact ⟨rfl, by rw [List.append_nil]⟩
    | _ => exact ⟨rfl, List.append_nil _⟩

end Expr

namespace Session

variable {host : Host} {bound : Nat} {outputLimit : Option Nat} {units : List String}

/-- Reading a property of an instance, in a machine whose fields are those behind a log. -/
theorem property_lastStored {made : List Class} {before : List Entry} {m : Machine}
    (populated : m.Populated made) (left : ∀ id name, m.contents id name = lastStored before id name)
    (id : ObjectId) (c : Class) (name : Token) :
    match lastStored before id name.lexeme, c.method? name.lexeme with
    | some value, _ => Run.property (.object id c) name m = .ok value m
    | none, some method => Run.BindsAnew (.object id c) name method m
    | none, none => Run.property (.object id c) name m =
        .error (.raised (.runtime name.line (.undefinedProperty name.lexeme))) m := by
  have held := left id name.lexeme
  have read := Run.property_apply id c name m
  rw [show Bindings.get? name.lexeme (m.objects[id]?.getD []) = _ from held] at read
  cases last : lastStored before id name.lexeme with
  | some value => simpa only [last] using read
  | none =>
    cases chosen : c.method? name.lexeme with
    | some method => exact Run.property_bindsAnew populated (held.trans last) chosen
    | none => simpa only [last, chosen] using read

/-- In every run of a session reading a property of an instance gives what was last stored in the field,
through whatever name, in whatever function or unit, and nothing else has a part in it: every entry, be it
in a statement that fails or between two units, finds in each field what the stores before it have left
there. Without such a store it gives a new method of the class the instance was made of, or an error. Each
call of a class makes an instance that was not there and that has no fields, and an instance is of the
class that was called for it. An assignment to a property stores at most once, as the last thing it does,
and not if its object is no instance or its value stops. -/
theorem log_lastStored (host : Host) (bound : Nat) (outputLimit : Option Nat) (units : List String) :
    let s := start outputLimit
    let log := s.log host bound units
    let starts := s.starts host bound units
    (∀ before e after, log = before ++ e :: after →
      (∀ id name, e.machine.contents id name = lastStored before id name) ∧
      (∀ id c, e.Mentions (.object id c) → (classesCalled starts)[id]? = some c) ∧
      ∀ id c name, e.deed = .property (.object id c) name →
        match lastStored before id name.lexeme, c.method? name.lexeme with
        | some value, _ => Run.property (.object id c) name e.machine = .ok value e.machine
        | none, some method => Run.BindsAnew (.object id c) name method e.machine
        | none, none => Run.property (.object id c) name e.machine =
            .error (.raised (.runtime name.line (.undefinedProperty name.lexeme))) e.machine) ∧
    (∀ id name, (s.runEach host bound units).2.machine.contents id name = lastStored log id name) ∧
    (∀ before call after c, starts = before ++ call :: after → call.what = .ofClass c →
      let id := (classesCalled before).length
      (∀ other d, call.machine.Holding (.object other d) → other < id) ∧
      (∀ name, call.machine.contents id name = none) ∧
      ∀ n arguments line, ∃ m,
        Run.counted (Run.invoke host n (.ofClass c) arguments line) call.machine =
          .ok (.object id c) m ∧ m.contents = call.machine.contents) ∧
    ∀ object name value, Expr.StoresLast object name value := by
  intro s log starts
  have recorded := log_recorded host bound units (start_populated outputLimit)
  have left (entries : List Entry) (id : ObjectId) (name : String) :
      entries.foldl Contents.behind s.machine.contents id name = lastStored entries id name := by
    rw [Contents.foldl_behind]
    exact Option.or_none
  have classes (calls : List Start) : calls.foldl madeBehind [] = classesCalled calls :=
    foldl_madeBehind [] calls
  refine ⟨fun before e after split => ?_, fun id name => ?_, fun before call after c split called => ?_,
    Expr.set_storesLast⟩
  · have finds := recorded.finds
    rw [show s.log host bound units = _ from split] at finds
    have here (id : ObjectId) (name : String) :
        e.machine.contents id name = lastStored before id name := by
      rw [finds.at_split, left]
    have known := recorded.known e (by rw [show s.log host bound units = _ from split]; simp)
    refine ⟨here, fun id c mentions => classes starts ▸ known.class_eq mentions, fun id c name _ => ?_⟩
    obtain ⟨now, -, populated, -⟩ := known
    exact property_lastStored populated here id c name
  · rw [recorded.contents, left]
  · have begins := recorded.begins
    rw [show s.starts host bound units = _ from split] at begins
    have populated := begins.at_split
    rw [classes] at populated
    refine ⟨fun other d holding => ?_, fun name => ?_, fun n arguments line => ?_⟩
    · exact (List.getElem?_eq_some_iff.1 (populated.known holding)).1
    · rw [Machine.contents, Array.getElem?_eq_none (Nat.le_of_eq populated.size)]
      rfl
    · refine ⟨_, (Run.counted_ofClass host n c arguments line _).trans ?_, Machine.contents_newObject _⟩
      rw [populated.size]

/-- A field is stored in while a value for it is evaluated, and a later unit fails. -/
example : (lastStored ((start none).log ⟨fun _ => 0, some maxCallDepth⟩ 8
    ["class A {} var a = A(); var b = a; b.n = (a.n = \"x\") + \"y\";", "b.n = a.m;"]) 0 "n").map
      Value.text = some "xy" := by
  decide +kernel

end Session

end Lox
