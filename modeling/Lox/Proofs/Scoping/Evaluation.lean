import Lox.Proofs.Scoping.Action

/-! Programs visit sound points: expressions by induction on the expression, statements by induction
on the statement, and calls by induction on the bound. -/
namespace Lox

variable {found : List Finding}

/-- Calls visit sound points, wherever they are made. -/
def CallersVisit (found : List Finding) (call : Caller) (inside : CallPoints) : Prop :=
  ∀ {m : Machine} {callee : Value} {arguments : List Value} (line : Nat), m.Sound found →
    callee.Fits found m.scopes → (∀ v ∈ arguments, v.Fits found m.scopes) →
    Visits found m (call callee arguments line) (inside callee arguments line m)
      fun t v => v.Fits found t

/-- A point where nothing is read. -/
theorem Point.sound_of_reading?_none {p : Point} (sound : p.machine.Sound found)
    (known : p.machine.current < p.machine.scopes.list.size) (none : p.reading? = none) :
    p.Sound found :=
  ⟨known, sound.rooted, fun i name reading => by simp [none] at reading⟩

/-- What is read where no error was found has the distance that was found. -/
theorem Point.sound_of_reading?_some {p : Point} {here : Surroundings} {i : Occurrence} {name : Token}
    (sound : p.machine.Sound found) (readable : Readable p.machine.scopes here p.machine.current)
    (reading : p.reading? = some (i, name))
    (ready : here.isPending name = false ∨ name.lexeme = Keyword.thisWord.spelling)
    (among : here.referring i name ∈ found) : p.Sound found := by
  refine ⟨readable.known, sound.rooted, fun j other same => ?_⟩
  rw [reading] at same
  cases same
  obtain ⟨_, _, _, same, noted⟩ := sound.noted _ among
  cases same
  exact ⟨_, among, noted, fun distance depth => readable.binds name distance ready depth⟩

theorem Machine.Sound.not_refused {m : Machine} {t : Token} {e : StaticError} (sound : m.Sound found) :
    Finding.refused t e ∉ found := by
  intro among
  obtain ⟨_, _, _, same, -⟩ := sound.noted _ among
  cases same

/-- What is declared without an error is not declared in its scope yet. -/
theorem Machine.Sound.not_holds {m : Machine} {here : Surroundings} {name : Token}
    (sound : m.Sound found) (among : here.redeclaring name ⊆ found) : here.holds name = false := by
  by_cases holds : here.holds name = true
  · rw [Surroundings.redeclaring, if_pos holds] at among
    exact absurd (among (List.mem_singleton.2 rfl)) sound.not_refused
  · simpa using holds

section

variable {call : Caller} {inside : CallPoints}

mutual

theorem Expr.visits (callers : CallersVisit found call inside) {m : Machine} {here : Surroundings} :
    (e : Expr) → e.Spelled → m.Sound found → Readable m.scopes here m.current → e.findings here ⊆ found →
      Visits found m (e.evaluate call) (e.points call inside m) fun t v => v.Fits found t
  | .constant value, spelled, sound, readable, _ => by
    rw [Expr.evaluate, Expr.points]
    refine .visit rfl (Point.sound_of_reading?_none sound readable.known rfl) ?_
    exact .pure sound (Value.ofConstant_fits value)
  | .group part, spelled, sound, readable, among => by
    rw [Expr.findings] at among
    rw [Expr.evaluate, Expr.points]
    refine .visit rfl (Point.sound_of_reading?_none sound readable.known rfl) ?_
    exact part.visits callers spelled sound readable among
  | .unary operator part, spelled, sound, readable, among => by
    rw [Expr.findings] at among
    rw [Expr.evaluate, Expr.points]
    refine .visit rfl (Point.sound_of_reading?_none sound readable.known rfl) ?_
    refine (part.visits callers spelled sound readable among).last fun v m' sound' _ _ _ => ?_
    exact .applyUnary sound' operator v
  | .binary left operator right, spelled, sound, readable, among => by
    rw [Expr.findings] at among
    obtain ⟨among, among'⟩ := List.append_subset.1 among
    rw [Expr.evaluate, Expr.points]
    refine .visit rfl (Point.sound_of_reading?_none sound readable.known rfl) ?_
    refine (left.visits callers spelled.1 sound readable among).bind fun v m' sound' same le _ => ?_
    refine (right.visits callers spelled.2 sound' (same ▸ readable.mono le) among').last ?_
    intro v' m'' sound'' _ _ _
    exact .applyBinary sound'' operator v v'
  | .logical left operator right, spelled, sound, readable, among => by
    rw [Expr.findings] at among
    obtain ⟨among, among'⟩ := List.append_subset.1 among
    rw [Expr.evaluate, Expr.points]
    refine .visit rfl (Point.sound_of_reading?_none sound readable.known rfl) ?_
    refine (left.visits callers spelled.1 sound readable among).bind fun v m' sound' same le fits => ?_
    split
    · exact .pure sound' fits
    · exact right.visits callers spelled.2 sound' (same ▸ readable.mono le) among'
  | .read i name, spelled, sound, readable, among => by
    rw [Expr.findings] at among
    obtain ⟨ready, among⟩ := List.append_subset.1 among
    rw [Expr.evaluate, Expr.points]
    have ready : here.isPending name = false := by
      by_cases pending : here.isPending name = true
      · rw [if_pos pending] at ready
        exact absurd (ready (List.mem_singleton.2 rfl)) sound.not_refused
      · simpa using pending
    refine .visit rfl (Point.sound_of_reading?_some sound readable rfl (.inl ready) ?_)
      (.readVariable sound i)
    exact among (List.mem_singleton.2 rfl)
  | .assign i name value, spelled, sound, readable, among => by
    rw [Expr.findings] at among
    obtain ⟨among, -⟩ := List.append_subset.1 among
    rw [Expr.evaluate, Expr.points]
    refine .visit rfl (Point.sound_of_reading?_none sound readable.known rfl) ?_
    refine (value.visits callers spelled sound readable among).last fun v m' sound' _ _ fits => ?_
    refine (Visits.assignVariable sound' i fits).last fun _ m'' sound'' _ le _ => ?_
    exact .pure sound'' (fits.mono le)
  | .call callee closing arguments, spelled, sound, readable, among => by
    rw [Expr.findings] at among
    obtain ⟨among, among'⟩ := List.append_subset.1 among
    rw [Expr.evaluate, Expr.points]
    refine .visit rfl (Point.sound_of_reading?_none sound readable.known rfl) ?_
    refine (callee.visits callers spelled.1 sound readable among).bind fun v m' sound' same le fits => ?_
    refine (Expr.allVisits callers arguments spelled.2 sound' (same ▸ readable.mono le) among').bind ?_
    intro list m'' sound'' _ le' all
    exact callers closing.line sound'' (fits.mono le') all
  | .get object name, spelled, sound, readable, among => by
    rw [Expr.findings] at among
    rw [Expr.evaluate, Expr.points]
    refine .visit rfl (Point.sound_of_reading?_none sound readable.known rfl) ?_
    refine (object.visits callers spelled sound readable among).last fun v m' sound' _ _ fits => ?_
    exact .property sound' fits
  | .set object name value, spelled, sound, readable, among => by
    rw [Expr.findings] at among
    obtain ⟨among, among'⟩ := List.append_subset.1 among
    rw [Expr.evaluate, Expr.points]
    refine .visit rfl (Point.sound_of_reading?_none sound readable.known rfl) ?_
    refine (object.visits callers spelled.1 sound readable among').bind fun v m' sound' same le _ => ?_
    cases v with
    | object id c =>
      refine (value.visits callers spelled.2 sound' (same ▸ readable.mono le) among).last ?_
      intro v m'' sound'' _ _ fits
      refine (Visits.setField sound'' id name.lexeme fits).last fun _ m₃ sound₃ _ le' _ => ?_
      exact .pure sound₃ (fits.mono le')
    | _ => exact .raise sound'
  | .this i keyword, spelled, sound, readable, among => by
    rw [Expr.findings] at among
    rw [Expr.evaluate, Expr.points]
    split at among
    next =>
      refine .visit rfl (Point.sound_of_reading?_some sound readable rfl (.inr spelled) ?_)
        (.readVariable sound i)
      exact among (List.mem_singleton.2 rfl)
    next => exact absurd (among (List.mem_singleton.2 rfl)) sound.not_refused

theorem Expr.allVisits (callers : CallersVisit found call inside) {m : Machine}
    {here : Surroundings} :
    (list : List Expr) → Expr.AllSpelled list → m.Sound found → Readable m.scopes here m.current →
      Expr.allFindings here list ⊆ found →
      Visits found m (Expr.evaluateAll call list) (Expr.allPoints call inside list m)
        fun t all => ∀ v ∈ all, v.Fits found t
  | [], _, sound, _, _ => by
    rw [Expr.evaluateAll, Expr.allPoints]
    exact .pure sound (by simp)
  | e :: rest, spelled, sound, readable, among => by
    rw [Expr.allFindings] at among
    obtain ⟨among, among'⟩ := List.append_subset.1 among
    rw [Expr.evaluateAll, Expr.allPoints]
    refine (e.visits callers spelled.1 sound readable among).bind fun v m' sound' same le fits => ?_
    refine (Expr.allVisits callers rest spelled.2 sound' (same ▸ readable.mono le) among').last ?_
    intro list m'' sound'' _ le' all
    refine .pure sound'' fun v' member => ?_
    rcases List.mem_cons.1 member with rfl | later
    · exact fits.mono le'
    · exact all v' later

end

theorem Expr.optionVisits (callers : CallersVisit found call inside) {m : Machine}
    {here : Surroundings} {value : Option Expr} (spelled : ∀ e ∈ value, e.Spelled)
    (sound : m.Sound found) (readable : Readable m.scopes here m.current)
    (among : ∀ e ∈ value, e.findings here ⊆ found) :
    Visits found m (Run.valueOf call value) (Expr.optionPoints call inside value m)
      fun t v => v.Fits found t := by
  cases value with
  | none => exact .pure sound trivial
  | some e => exact e.visits callers (spelled e rfl) sound readable (among e rfl)

mutual

theorem Stmt.visits (callers : CallersVisit found call inside) (bound : Nat) {m : Machine}
    {here : Surroundings} : (s : Stmt) → s.Placed → s.Spelled → m.Sound found →
      Covers m.scopes here.scopes m.current → s.findings here ⊆ found →
      Visits found m (s.execute call bound) (s.points call inside bound m)
        fun t _ => Covers t (here.after s).scopes m.current
  | .expression value, _, spelled, sound, covers, among => by
    rw [Stmt.findings] at among
    rw [Stmt.execute, Stmt.points]
    have readable := Readable.of_covers sound.rooted covers
    refine .visit rfl (Point.sound_of_reading?_none sound readable.known rfl) ?_
    refine (value.visits callers spelled sound readable among).last fun _ m' sound' _ le _ => ?_
    exact .pure sound' (covers.mono le)
  | .print value, _, spelled, sound, covers, among => by
    rw [Stmt.findings] at among
    rw [Stmt.execute, Stmt.points]
    have readable := Readable.of_covers sound.rooted covers
    refine .visit rfl (Point.sound_of_reading?_none sound readable.known rfl) ?_
    refine (value.visits callers spelled sound readable among).last fun v m' sound' _ le _ => ?_
    exact (Visits.printLine sound' v).mono fun t _ le' _ => (covers.mono le).mono le'
  | .var name initializer, _, spelled, sound, covers, among => by
    rw [Stmt.execute, Stmt.points]
    have known := covers.lt_size sound.rooted
    refine .visit rfl (Point.sound_of_reading?_none sound known rfl) ?_
    have free : here.holds name = false := by
      cases initializer <;> rw [Stmt.findings] at among
      · exact sound.not_holds among
      · exact sound.not_holds (List.append_subset.1 among).1
    have readable := Readable.declare sound.rooted covers free spelled.1
    refine (Expr.optionVisits callers spelled.2 sound readable ?_).last fun v m' sound' same le fits => ?_
    · rintro e rfl
      rw [Stmt.findings] at among
      exact (List.append_subset.1 among).2
    · refine .asking ?_
      rw [same]
      have later := m'.scopes.le_define m.current name.lexeme v
      refine (Visits.define sound' m.current name.lexeme (fits.mono later)).mono ?_
      intro t _ _ made
      rw [made]
      exact (covers.mono le).define
  | .block body, placed, spelled, sound, covers, among => by
    rw [Stmt.findings] at among
    rw [Stmt.execute, Stmt.points]
    have known := covers.lt_size sound.rooted
    refine .visit rfl (Point.sound_of_reading?_none sound known rfl) ?_
    refine .asking ((Visits.newScope sound known).step fun i m' sound' same le linked => ?_)
    have entered : Covers m'.scopes (here.enter []).scopes i := (covers.mono le).enter linked
    have inner := Stmt.allVisits callers bound (m := { m' with current := i }) body placed spelled
      { sound' with } entered among
    exact (Visits.within inner).mono fun t _ le' _ => (covers.mono le).mono le'
  | .branch condition consequent none, placed, spelled, sound, covers, among => by
    rw [here.after_of_not_declares _ rfl placed]
    rw [Stmt.findings] at among
    obtain ⟨among, among'⟩ := List.append_subset.1 among
    rw [Stmt.execute, Stmt.points]
    have readable := Readable.of_covers sound.rooted covers
    refine .visit rfl (Point.sound_of_reading?_none sound readable.known rfl) ?_
    refine (condition.visits callers spelled.1 sound readable among).bind fun v m' sound' same le _ => ?_
    have there := covers.mono le
    split
    · refine (Stmt.visits callers bound consequent placed.2 spelled.2 sound' (same ▸ there) among').mono ?_
      exact fun t _ le' _ => there.mono le'
    · exact .pure sound' there
  | .branch condition consequent (some alternative), placed, spelled, sound, covers, among => by
    rw [here.after_of_not_declares _ rfl placed]
    obtain ⟨⟨bare, placed⟩, -, placed'⟩ := placed
    rw [Stmt.findings, here.after_of_not_declares consequent bare placed] at among
    obtain ⟨among, among''⟩ := List.append_subset.1 among
    obtain ⟨among, among'⟩ := List.append_subset.1 among
    rw [Stmt.execute, Stmt.points]
    have readable := Readable.of_covers sound.rooted covers
    refine .visit rfl (Point.sound_of_reading?_none sound readable.known rfl) ?_
    refine (condition.visits callers spelled.1 sound readable among).bind fun v m' sound' same le _ => ?_
    have there := covers.mono le
    split
    · refine (Stmt.visits callers bound consequent placed spelled.2.1 sound' (same ▸ there) among').mono ?_
      exact fun t _ le' _ => there.mono le'
    · refine (Stmt.visits callers bound alternative placed' spelled.2.2 sound' (same ▸ there) among'').mono ?_
      exact fun t _ le' _ => there.mono le'
  | .loop condition body, placed, spelled, sound, covers, among => by
    rw [here.after_of_not_declares _ rfl placed]
    rw [Stmt.findings] at among
    obtain ⟨among, among'⟩ := List.append_subset.1 among
    rw [Stmt.execute, Stmt.points]
    have known := covers.lt_size sound.rooted
    refine .visit rfl (Point.sound_of_reading?_none sound known rfl) ?_
    refine .repeating sound ?_ ?_ (fun t le => covers.mono le) bound
    · intro k sound' same le
      have readable := Readable.of_covers sound'.rooted (same ▸ covers.mono le)
      exact (condition.visits callers spelled.1 sound' readable among).mono fun _ _ _ _ => trivial
    · intro k sound' same le
      have once := Stmt.visits callers bound body placed.2 spelled.2 sound' (same ▸ covers.mono le) among'
      exact once.mono fun _ _ _ _ => trivial
  | .function declaration, placed, spelled, sound, covers, among => by
    rw [Stmt.findings] at among
    rw [Stmt.execute, Stmt.points]
    refine .visit rfl (Point.sound_of_reading?_none sound (covers.lt_size sound.rooted) rfl) ?_
    refine .asking ((Visits.newCallable sound _).last fun v m' sound' _ le made => ?_)
    obtain ⟨-, identity, rfl⟩ := made
    let made : Value := .callable identity (.closure ⟨declaration, m.current⟩)
    have defined : Covers (m'.scopes.define m.current declaration.name.lexeme made)
        (here.define declaration.name).scopes m.current := (covers.mono le).define
    have fits : made.Fits found (m'.scopes.define m.current declaration.name.lexeme made) :=
      Closure.Fits.mk placed spelled ⟨_, defined, (List.append_subset.1 among).2⟩
    refine (Visits.define sound' m.current _ fits).mono fun t _ _ made => ?_
    rw [made]
    exact defined
  | .ret keyword value, _, spelled, sound, covers, among => by
    rw [Stmt.execute, Stmt.points]
    have readable := Readable.of_covers sound.rooted covers
    refine .visit rfl (Point.sound_of_reading?_none sound readable.known rfl) ?_
    refine (Expr.optionVisits callers spelled sound readable ?_).last fun v m' sound' _ _ fits => ?_
    · rintro e rfl
      rw [Stmt.findings] at among
      exact (List.append_subset.1 among).2
    · exact .throw sound' fits
  | .classDecl name methods, placed, spelled, sound, covers, among => by
    rw [Stmt.findings] at among
    rw [Stmt.execute, Stmt.points]
    refine .visit rfl (Point.sound_of_reading?_none sound (covers.lt_size sound.rooted) rfl) ?_
    refine .asking ((Visits.newCallable sound _).last fun v m' sound' _ le made => ?_)
    obtain ⟨-, identity, rfl⟩ := made
    let made : Value := .callable identity (.ofClass ⟨name.lexeme, methods, m.current⟩)
    have defined : Covers (m'.scopes.define m.current name.lexeme made)
        (here.define name).scopes m.current := (covers.mono le).define
    have fits : made.Fits found (m'.scopes.define m.current name.lexeme made) :=
      Class.Fits.mk placed spelled ⟨_, defined, (List.append_subset.1 among).2⟩
    refine (Visits.define sound' m.current _ fits).mono fun t _ _ made => ?_
    rw [made]
    exact defined

theorem Stmt.allVisits (callers : CallersVisit found call inside) (bound : Nat) {m : Machine}
    {here : Surroundings} : (list : List Stmt) → Stmt.AllPlaced list → Stmt.AllSpelled list →
      m.Sound found → Covers m.scopes here.scopes m.current → Stmt.allFindings here list ⊆ found →
      Visits found m (Stmt.executeAll call bound list) (Stmt.allPoints call inside bound list m)
        fun _ _ => True
  | [], _, _, sound, _, _ => by
    rw [Stmt.executeAll, Stmt.allPoints]
    exact .pure sound trivial
  | s :: rest, placed, spelled, sound, covers, among => by
    rw [Stmt.allFindings] at among
    obtain ⟨among, among'⟩ := List.append_subset.1 among
    rw [Stmt.executeAll, Stmt.allPoints]
    refine (Stmt.visits callers bound s placed.1 spelled.1 sound covers among).bind ?_
    intro _ m' sound' same _ covers'
    exact Stmt.allVisits callers bound rest placed.2 spelled.2 sound' (same ▸ covers') among'

end

end

/-- What is admitted to be called has as many parameters as there are arguments. -/
theorem Visits.admitted {m : Machine} {callee : Value} {arguments : List Value} (limit : Option Nat)
    (line : Nat) (sound : m.Sound found) (fits : callee.Fits found m.scopes) :
    Visits found m (Run.admitted limit callee arguments line) []
      fun t what => what.Fits found t ∧ arguments.length = what.arity := by
  cases callee with
  | callable identity what =>
    rw [Run.admitted]
    by_cases complete : arguments.length = what.arity
    · rw [if_neg (not_not_intro complete)]
      refine .asking ?_
      by_cases deep : limit.any (· ≤ m.depth) = true
      · simp only [deep, if_true]
        exact .raise sound
      · simp only [deep]
        exact .pure sound ⟨fits, complete⟩
    · rw [if_pos complete]
      exact .raise sound
  | _ => exact .raise sound

theorem Visits.admitting {limit : Option Nat}
    {invoke : Callable → List Value → (line : Nat) → Run Value}
    {inside : Callable → List Value → (line : Nat) → Points}
    (visits : ∀ {m : Machine} {what : Callable} {arguments : List Value} (line : Nat), m.Sound found →
      what.Fits found m.scopes → (∀ v ∈ arguments, v.Fits found m.scopes) →
      arguments.length = what.arity →
      Visits found m (invoke what arguments line) (inside what arguments line m)
        fun t v => v.Fits found t) :
    CallersVisit found (Run.admitting limit invoke) (Run.admittingPoints limit inside) := by
  intro m callee arguments line sound fits all
  refine (Visits.admitted limit line sound fits).step fun what m' sound' _ le both => ?_
  refine .counted (visits line { sound' with } both.1 (fun v member => ?_) both.2)
  exact (all v member).mono le

theorem Visits.answer {m : Machine} (sound : m.Sound found) (now : Float) (which : Native)
    (arguments : List Value) (line : Nat) :
    Visits found m (match which.answer now arguments with
      | .ok value => (Pure.pure value : Run Value)
      | .error text => Run.raise line (.native text)) [] fun t v => v.Fits found t := by
  cases answered : which.answer now arguments with
  | ok v =>
    obtain ⟨c, rfl⟩ := Native.exists_constant answered
    exact .pure sound (Value.ofConstant_fits c)
  | error text => exact .raise sound

theorem Visits.invoke (host : Host) (bound : Nat) {m : Machine} {what : Callable}
    {arguments : List Value} (line : Nat) (sound : m.Sound found) (fits : what.Fits found m.scopes)
    (all : ∀ v ∈ arguments, v.Fits found m.scopes) (complete : arguments.length = what.arity) :
    Visits found m (Run.invoke host bound what arguments line)
      (Run.invokePoints host bound what arguments line m) fun t v => v.Fits found t := by
  induction bound generalizing m what arguments line with
  | zero =>
    cases what with
    | native which =>
      rw [Run.invoke]
      exact (Visits.clock sound host).last fun now _ sound' _ _ _ =>
        .answer sound' now which arguments line
    | closure f => exact .throw sound trivial
    | ofClass c => exact .newObject sound fits
  | succ bound ih =>
    cases what with
    | native which =>
      rw [Run.invoke]
      exact (Visits.clock sound host).last fun now _ sound' _ _ _ =>
        .answer sound' now which arguments line
    | closure f =>
      refine .enter sound fits all complete fun m' here sound' covers among => ?_
      have placed := (FunctionDecl.placed_iff _).1 fits.placed
      have spelled := (FunctionDecl.spelled_iff _).1 fits.spelled
      exact Stmt.allVisits (.admitting ih) bound _ placed spelled sound' covers among
    | ofClass c => exact .newObject sound fits

theorem Visits.call (host : Host) (bound : Nat) :
    CallersVisit found (Run.call host bound) (Run.callPoints host bound) :=
  .admitting (.invoke host bound)

end Lox
