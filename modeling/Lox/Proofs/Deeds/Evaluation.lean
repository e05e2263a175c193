import Lox.Proofs.Deeds.Action

/-! Programs tell logs whose entries are in order: expressions by induction on the expression, statements
by induction on the statement, and calls by induction on the bound. -/
namespace Lox

variable {found : List Finding} {changing : Option ScopeId}

/-- Calls tell logs in order, wherever they are made. -/
def CallersTell (found : List Finding) (call : Caller) (inside : CallLog) : Prop :=
  ∀ {m : Machine} {callee : Value} {arguments : List Value} (line : Nat), m.Sane found →
    callee.Sane found m.scopes → (∀ v ∈ arguments, v.Sane found m.scopes) →
    Tells found none m (call callee arguments line) (inside callee arguments line m)
      fun t v => v.Sane found t

theorem Machine.Sane.not_refused {m : Machine} {t : Token} {e : StaticError} (sane : m.Sane found) :
    Finding.refused t e ∉ found := by
  intro among
  obtain ⟨_, _, _, same, -⟩ := sane.noted _ among
  cases same

theorem Machine.Sane.not_holds {m : Machine} {here : Surroundings} {name : Token}
    (sane : m.Sane found) (among : here.redeclaring name ⊆ found) : here.holds name = false := by
  cases holds : here.holds name with
  | false => rfl
  | true =>
    rw [Surroundings.redeclaring, if_pos holds] at among
    exact absurd (among (List.mem_singleton.2 rfl)) sane.not_refused

/-- What is noted of an occurrence is how far out its name was found. -/
theorem Machine.Sane.distance {m : Machine} {here : Surroundings} {i : Occurrence} {name : Token}
    (sane : m.Sane found) (among : here.referring i name ∈ found) :
    m.distances[i]? = here.depth? name := by
  obtain ⟨_, _, _, same, noted⟩ := sane.noted _ among
  cases same
  exact noted

section

variable {s : Scopes Value} {here : Surroundings} {site : Site} {m : Machine} {i : Occurrence}
  {name : Token}

/-- A pending name is found in the innermost scope. -/
theorem Surroundings.depth?_of_isPending (pending : here.isPending name = true) :
    here.depth? name = some 0 := by
  rw [isPending] at pending
  rw [depth?]
  cases scopes : here.scopes with
  | nil => simp [scopes] at pending
  | cons innermost outer =>
    have bound : innermost.binds name.lexeme = true := by
      simp only [scopes, List.head?_cons, Option.any_some, decide_eq_true_eq] at pending
      simp [Bindings.binds, pending]
    rw [List.findIdx?_cons, if_pos bound]

/-- A variable that is found is bound there, unless it is just being declared. -/
theorem Sees.binds_iff {k : ScopeId} {distance : Nat} (sees : Sees s here site k)
    (depth : here.depth? name = some distance) :
    ∃ j, s.ancestor? k distance = some j ∧
      ((s.bindings j).binds name.lexeme = true ↔
        site.declaring.map (·.lexeme) ≠ some name.lexeme) := by
  have declaring := sees.declaring name distance depth
  cases pending : here.isPending name with
  | false =>
    obtain ⟨j, out, bound⟩ := sees.binds name distance pending depth
    refine ⟨j, out, iff_of_true bound fun same => ?_⟩
    rw [declaring.2 same] at pending
    cases pending
  | true =>
    have innermost : distance = 0 :=
      Option.some.inj (depth.symm.trans (Surroundings.depth?_of_isPending pending))
    subst innermost
    refine ⟨k, rfl, iff_of_false ?_ (not_not_intro (declaring.1 pending))⟩
    rw [sees.pending name pending]
    exact Bool.false_ne_true

theorem Entry.sane_execute {s : Stmt} (sees : Sees m.scopes here site m.current) :
    Entry.Sane ⟨site, .execute s, m⟩ := .of_agrees sees.known sees.agrees (by simp) (by simp)

theorem Entry.sane_this (sane : m.Sane found) (sees : Sees m.scopes here site m.current)
    (inside : here.inClass = true) (spelled : name.lexeme = Keyword.thisWord.spelling)
    (among : here.referring i name ∈ found) : Entry.Sane ⟨site, .this i name, m⟩ := by
  refine ⟨sees.known, sees.agrees, fun id keyword same => ?_, by simp⟩
  cases same
  obtain ⟨distance, j, value, depth, out, bound, self⟩ := sees.this inside
  have noted := sane.distance among
  rw [Surroundings.depth?, spelled, depth] at noted
  refine ⟨value, self, ?_⟩
  rw [Run.readVariable_apply, Machine.scopeOf, noted]
  simp only [out, Option.bind_some, spelled, bound]

theorem Entry.sane_assign (sane : m.Sane found) (sees : Sees m.scopes here site m.current)
    (value : Value) (among : here.referring i name ∈ found) :
    Entry.Sane ⟨site, .assign i name value, m⟩ := by
  refine ⟨sees.known, sees.agrees, by simp, fun id other value' distance same noted => ?_⟩
  cases same
  exact sees.binds_iff ((sane.distance among).symm.trans noted)

end

section

variable {call : Caller} {inside : CallLog}

mutual

theorem Expr.tells (callers : CallersTell found call inside) {m : Machine} {here : Surroundings}
    {site : Site} : (e : Expr) → e.Shaped Token.Spelled → m.Sane found →
      Sees m.scopes here site m.current → e.findings here ⊆ found →
      Tells found none m (e.evaluate call) (e.log call inside site m) fun t v => v.Sane found t
  | .constant value, _, sane, _, _ => by
    rw [Expr.evaluate, Expr.log]
    exact .pure sane (Value.ofConstant_sane value)
  | .group part, shaped, sane, sees, among => by
    rw [Expr.findings] at among
    rw [Expr.Shaped] at shaped
    rw [Expr.evaluate, Expr.log]
    exact part.tells callers shaped sane sees among
  | .unary operator part, shaped, sane, sees, among => by
    rw [Expr.findings] at among
    rw [Expr.Shaped] at shaped
    rw [Expr.evaluate, Expr.log]
    refine (part.tells callers shaped.2 sane sees among).last fun v m' sane' _ _ _ => ?_
    exact .applyUnary sane' v shaped.1.kind
  | .binary left operator right, shaped, sane, sees, among => by
    rw [Expr.findings] at among
    obtain ⟨among, among'⟩ := List.append_subset.1 among
    rw [Expr.Shaped] at shaped
    rw [Expr.evaluate, Expr.log]
    refine (left.tells callers shaped.2.1 sane sees among).bind fun v m' sane' same keeps _ => ?_
    refine (right.tells callers shaped.2.2 sane' (same ▸ sees.mono keeps) among').last ?_
    intro v' m'' sane'' _ _ _
    exact .applyBinary sane'' v v' shaped.1.kind
  | .logical left operator right, shaped, sane, sees, among => by
    rw [Expr.findings] at among
    obtain ⟨among, among'⟩ := List.append_subset.1 among
    rw [Expr.Shaped] at shaped
    rw [Expr.evaluate, Expr.log]
    refine (left.tells callers shaped.2.1 sane sees among).bind fun v m' sane' same keeps fits => ?_
    split
    · exact .pure sane' fits
    · exact right.tells callers shaped.2.2 sane' (same ▸ sees.mono keeps) among'
  | .read i name, _, sane, _, _ => by
    rw [Expr.evaluate, Expr.log]
    exact .readVariable sane i
  | .assign i name value, shaped, sane, sees, among => by
    rw [Expr.findings] at among
    obtain ⟨among, among'⟩ := List.append_subset.1 among
    rw [Expr.Shaped] at shaped
    rw [Expr.evaluate, Expr.log]
    refine (value.tells callers shaped.2 sane sees among).bind fun v m' sane' same keeps fits => ?_
    have there : Sees m'.scopes here site m'.current := same ▸ sees.mono keeps
    refine .entry rfl rfl (Entry.sane_assign sane' there v (among' (List.mem_singleton.2 rfl))) ?_
    refine (Tells.assignVariable sane' i shaped.1.ne_this fits).last ?_
    intro _ m'' sane'' _ keeps' _
    exact .pure sane'' (fits.mono keeps'.preserves)
  | .call callee closing arguments, shaped, sane, sees, among => by
    rw [Expr.findings] at among
    obtain ⟨among, among'⟩ := List.append_subset.1 among
    rw [Expr.Shaped] at shaped
    obtain ⟨-, -, shaped, shaped'⟩ := shaped
    rw [Expr.evaluate, Expr.log]
    refine (callee.tells callers shaped sane sees among).bind fun v m' sane' same keeps fits => ?_
    refine (Expr.allTells callers arguments shaped' sane' (same ▸ sees.mono keeps) among').bind ?_
    intro list m'' sane'' _ keeps' all
    exact callers closing.line sane'' (fits.mono keeps'.preserves) all
  | .get object name, shaped, sane, sees, among => by
    rw [Expr.findings] at among
    rw [Expr.Shaped] at shaped
    rw [Expr.evaluate, Expr.log]
    refine (object.tells callers shaped.2 sane sees among).bind fun v m' sane' same keeps fits => ?_
    have there : Sees m'.scopes here site m'.current := same ▸ sees.mono keeps
    exact .reading (.property sane' fits) (.of_agrees there.known there.agrees (by simp) (by simp))
  | .set object name value, shaped, sane, sees, among => by
    rw [Expr.findings] at among
    obtain ⟨among, among'⟩ := List.append_subset.1 among
    rw [Expr.Shaped] at shaped
    rw [Expr.evaluate, Expr.log]
    refine (object.tells callers shaped.2.1 sane sees among').bind fun v m' sane' same keeps _ => ?_
    have there : Sees m'.scopes here site m'.current := same ▸ sees.mono keeps
    cases v with
    | object id c =>
      refine (value.tells callers shaped.2.2 sane' there among).bind ?_
      intro v m'' sane'' same' keeps' fits
      have there' : Sees m''.scopes here site m''.current := same' ▸ there.mono keeps'
      refine .entry rfl rfl (.of_agrees there'.known there'.agrees (by simp) (by simp)) ?_
      refine (Tells.setField sane'' id name.lexeme fits).last fun _ m₃ sane₃ _ keeps'' _ => ?_
      exact .pure sane₃ (fits.mono keeps''.preserves)
    | _ => exact .raise sane'
  | .this i keyword, shaped, sane, sees, among => by
    rw [Expr.findings] at among
    rw [Expr.Shaped] at shaped
    rw [Expr.evaluate, Expr.log]
    split at among
    next within =>
      refine .entry rfl rfl ?_ (.readVariable sane i)
      exact Entry.sane_this sane sees within shaped.eq_this (among (List.mem_singleton.2 rfl))
    next => exact absurd (among (List.mem_singleton.2 rfl)) sane.not_refused

theorem Expr.allTells (callers : CallersTell found call inside) {m : Machine}
    {here : Surroundings} {site : Site} :
    (list : List Expr) → Expr.AllShaped Token.Spelled list → m.Sane found →
      Sees m.scopes here site m.current → Expr.allFindings here list ⊆ found →
      Tells found none m (Expr.evaluateAll call list) (Expr.allLog call inside site list m)
        fun t all => ∀ v ∈ all, v.Sane found t
  | [], _, sane, _, _ => by
    rw [Expr.evaluateAll, Expr.allLog]
    exact .pure sane (by simp)
  | e :: rest, shaped, sane, sees, among => by
    rw [Expr.allFindings] at among
    obtain ⟨among, among'⟩ := List.append_subset.1 among
    rw [Expr.AllShaped] at shaped
    rw [Expr.evaluateAll, Expr.allLog]
    refine (e.tells callers shaped.1 sane sees among).bind fun v m' sane' same keeps fits => ?_
    refine (Expr.allTells callers rest shaped.2 sane' (same ▸ sees.mono keeps) among').last ?_
    intro list m'' sane'' _ keeps' all
    refine .pure sane'' fun v' member => ?_
    rcases List.mem_cons.1 member with rfl | later
    · exact fits.mono keeps'.preserves
    · exact all v' later

end

theorem Expr.optionTells (callers : CallersTell found call inside) {m : Machine}
    {here : Surroundings} {site : Site} {value : Option Expr}
    (shaped : ∀ e ∈ value, e.Shaped Token.Spelled) (sane : m.Sane found)
    (sees : Sees m.scopes here site m.current) (among : ∀ e ∈ value, e.findings here ⊆ found) :
    Tells found none m (Run.valueOf call value) (Expr.optionLog call inside site value m)
      fun t v => v.Sane found t := by
  cases value with
  | none => exact .pure sane trivial
  | some e => exact e.tells callers (shaped e rfl) sane sees (among e rfl)

mutual

theorem Stmt.tells (callers : CallersTell found call inside) (bound : Nat) {m : Machine}
    {here : Surroundings} {active : Option Closure} : (s : Stmt) → s.Placed →
      s.Shaped Token.Spelled → m.Sane found → Stands m.scopes here active m.current →
      s.findings here ⊆ found →
      Tells found (some m.current) m (s.execute call bound) (s.log call inside bound active m)
        fun t _ => Stands t (here.after s) active m.current
  | .expression value, _, shaped, sane, stands, among => by
    rw [Stmt.findings] at among
    rw [Stmt.Shaped] at shaped
    rw [Stmt.execute, Stmt.log]
    refine .entry rfl rfl (Entry.sane_execute (.of_stands stands sane.rooted)) ?_
    have sees := Sees.of_stands stands sane.rooted
    refine (value.tells callers shaped sane sees among).last fun _ m' sane' _ keeps _ => ?_
    exact .pure sane' (stands.mono sane.rooted keeps)
  | .print value, _, shaped, sane, stands, among => by
    rw [Stmt.findings] at among
    rw [Stmt.Shaped] at shaped
    rw [Stmt.execute, Stmt.log]
    refine .entry rfl rfl (Entry.sane_execute (.of_stands stands sane.rooted)) ?_
    have sees := Sees.of_stands stands sane.rooted
    refine (value.tells callers shaped sane sees among).last fun v m' sane' _ keeps _ => ?_
    have there := stands.mono sane.rooted keeps
    exact ((Tells.printLine sane' v).mono fun t _ keeps' _ => there.mono sane'.rooted keeps').widen
      .none
  | .var name initializer, _, shaped, sane, stands, among => by
    rw [Stmt.Shaped] at shaped
    obtain ⟨shaped, shaped'⟩ := shaped
    rw [Stmt.execute, Stmt.log]
    refine .entry rfl rfl (Entry.sane_execute (.of_stands stands sane.rooted)) ?_
    have free : here.holds name = false := by
      cases initializer <;> rw [Stmt.findings] at among
      · exact sane.not_holds among
      · exact sane.not_holds (List.append_subset.1 among).1
    have sees := Sees.declare stands sane.rooted free shaped.ne_this
    refine (Expr.optionTells callers shaped' sane sees ?_).last fun v m' sane' same keeps fits => ?_
    · rintro e rfl
      rw [Stmt.findings] at among
      exact (List.append_subset.1 among).2
    · refine .asking ?_
      rw [same]
      have later := Scopes.Keeps.define m'.scopes m.current v shaped.ne_this
      have defined := Tells.define sane' m.current shaped.ne_this (fits.mono later.preserves)
      refine defined.mono fun t _ _ made => ?_
      rw [made]
      exact (stands.mono sane.rooted keeps).define sane'.rooted shaped.ne_this
  | .block body, placed, shaped, sane, stands, among => by
    rw [Stmt.findings] at among
    rw [Stmt.Shaped] at shaped
    rw [Stmt.execute, Stmt.log]
    refine .entry rfl rfl (Entry.sane_execute (.of_stands stands sane.rooted)) (.asking ?_)
    have known := stands.known sane.rooted
    -- what the block declares is in a scope of its own
    have inner : Tells found none m
        (do let scope ← Run.newScope m.current; Run.within scope (Stmt.executeAll call bound body))
        (Log.following (Run.newScope m.current) (fun scope m =>
          Stmt.allLog call inside bound active body { m with current := scope }) m)
        fun _ _ => True := by
      refine (Tells.newScope sane known).step (fun i m' sane' same keeps made => ?_) .none
        (.new (Nat.le_refl m.scopes.list.size))
      obtain ⟨linked, empty, rfl⟩ := made
      have agrees := stands.agrees.mono keeps.preserves known
      have entered : Stands m'.scopes (here.enter []) active m.scopes.list.size :=
        .fresh (stands.follows.mono keeps.preserves) stands.classed agrees linked empty
      exact .within (Stmt.allTells callers bound (m := { m' with current := m.scopes.list.size })
        body placed shaped { sane' with } entered among)
    exact (inner.mono fun t _ keeps _ => stands.mono sane.rooted keeps).widen .none
  | .branch condition consequent none, placed, shaped, sane, stands, among => by
    rw [here.after_of_not_declares _ rfl placed]
    rw [Stmt.findings] at among
    obtain ⟨among, among'⟩ := List.append_subset.1 among
    rw [Stmt.Shaped] at shaped
    rw [Stmt.execute, Stmt.log]
    refine .entry rfl rfl (Entry.sane_execute (.of_stands stands sane.rooted)) ?_
    have sees := Sees.of_stands stands sane.rooted
    refine (condition.tells callers shaped.1 sane sees among).bind fun v m' sane' same keeps _ => ?_
    have there := stands.mono sane.rooted keeps
    split
    · have branch := Stmt.tells callers bound consequent placed.2 shaped.2 sane' (same ▸ there) among'
      rwa [here.after_of_not_declares _ placed.1 placed.2, same] at branch
    · exact .pure sane' there
  | .branch condition consequent (some alternative), placed, shaped, sane, stands, among => by
    rw [here.after_of_not_declares _ rfl placed]
    obtain ⟨⟨bare, placed⟩, bare', placed'⟩ := placed
    rw [Stmt.findings, here.after_of_not_declares consequent bare placed] at among
    obtain ⟨among, among''⟩ := List.append_subset.1 among
    obtain ⟨among, among'⟩ := List.append_subset.1 among
    rw [Stmt.Shaped] at shaped
    rw [Stmt.execute, Stmt.log]
    refine .entry rfl rfl (Entry.sane_execute (.of_stands stands sane.rooted)) ?_
    have sees := Sees.of_stands stands sane.rooted
    refine (condition.tells callers shaped.1 sane sees among).bind fun v m' sane' same keeps _ => ?_
    have there := stands.mono sane.rooted keeps
    split
    · have branch := Stmt.tells callers bound consequent placed shaped.2.1 sane' (same ▸ there) among'
      rwa [here.after_of_not_declares _ bare placed, same] at branch
    · have branch := Stmt.tells callers bound alternative placed' shaped.2.2 sane' (same ▸ there)
        among''
      rwa [here.after_of_not_declares _ bare' placed', same] at branch
  | .loop condition body, placed, shaped, sane, stands, among => by
    rw [here.after_of_not_declares _ rfl placed]
    rw [Stmt.findings] at among
    obtain ⟨among, among'⟩ := List.append_subset.1 among
    rw [Stmt.Shaped] at shaped
    rw [Stmt.execute, Stmt.log]
    refine .entry rfl rfl (Entry.sane_execute (.of_stands stands sane.rooted)) ?_
    refine .repeating (I := fun t => Stands t here active m.current) sane stands ?_ ?_ bound
    · intro k sane' same there
      have sees := Sees.of_stands (same ▸ there) sane'.rooted
      refine (condition.tells callers shaped.1 sane' sees among).mono fun t _ keeps _ => ?_
      exact there.mono sane'.rooted keeps
    · intro k sane' same there
      have once := Stmt.tells callers bound body placed.2 shaped.2 sane' (same ▸ there) among'
      rwa [here.after_of_not_declares _ placed.1 placed.2, same] at once
  | .function declaration, placed, shaped, sane, stands, among => by
    rw [Stmt.findings] at among
    rw [Stmt.Shaped] at shaped
    have other := ((FunctionDecl.shaped_iff _).1 shaped).1.ne_this
    rw [Stmt.execute, Stmt.log]
    refine .entry rfl rfl (Entry.sane_execute (.of_stands stands sane.rooted)) (.asking ?_)
    refine (Tells.newCallable sane _).last fun v m' sane' _ keeps made => ?_
    obtain ⟨-, identity, rfl⟩ := made
    let made : Value := .callable identity (.closure ⟨declaration, m.current⟩)
    have defined : Stands (m'.scopes.define m.current declaration.name.lexeme made)
        (here.define declaration.name) active m.current :=
      (stands.mono sane.rooted keeps).define sane'.rooted other
    have fits : made.Sane found (m'.scopes.define m.current declaration.name.lexeme made) :=
      Closure.Sane.mk placed shaped
        ⟨_, defined.follows, defined.classed, (List.append_subset.1 among).2⟩
    refine (Tells.define sane' m.current other fits).mono fun t _ _ made => ?_
    rw [made]
    exact defined
  | .ret keyword value, _, shaped, sane, stands, among => by
    rw [Stmt.Shaped] at shaped
    rw [Stmt.execute, Stmt.log]
    refine .entry rfl rfl (Entry.sane_execute (.of_stands stands sane.rooted)) ?_
    have sees := Sees.of_stands stands sane.rooted
    refine (Expr.optionTells callers shaped.2 sane sees ?_).last fun v m' sane' _ _ fits => ?_
    · rintro e rfl
      rw [Stmt.findings] at among
      exact (List.append_subset.1 among).2
    · exact .throw sane' fits
  | .classDecl name methods, placed, shaped, sane, stands, among => by
    rw [Stmt.findings] at among
    rw [Stmt.Shaped] at shaped
    rw [Stmt.execute, Stmt.log]
    refine .entry rfl rfl (Entry.sane_execute (.of_stands stands sane.rooted)) (.asking ?_)
    refine (Tells.newCallable sane _).last fun v m' sane' _ keeps made => ?_
    obtain ⟨-, identity, rfl⟩ := made
    let made : Value := .callable identity (.ofClass ⟨name.lexeme, methods, m.current⟩)
    have defined : Stands (m'.scopes.define m.current name.lexeme made) (here.define name) active
        m.current := (stands.mono sane.rooted keeps).define sane'.rooted shaped.1.ne_this
    have fits : made.Sane found (m'.scopes.define m.current name.lexeme made) :=
      Class.Sane.mk placed shaped.2 ⟨_, defined.follows, (List.append_subset.1 among).2⟩
    refine (Tells.define sane' m.current shaped.1.ne_this fits).mono fun t _ _ made => ?_
    rw [made]
    exact defined

theorem Stmt.allTells (callers : CallersTell found call inside) (bound : Nat) {m : Machine}
    {here : Surroundings} {active : Option Closure} : (list : List Stmt) → Stmt.AllPlaced list →
      Stmt.AllShaped Token.Spelled list → m.Sane found → Stands m.scopes here active m.current →
      Stmt.allFindings here list ⊆ found →
      Tells found (some m.current) m (Stmt.executeAll call bound list)
        (Stmt.allLog call inside bound active list m) fun _ _ => True
  | [], _, _, sane, _, _ => by
    rw [Stmt.executeAll, Stmt.allLog]
    exact .pure sane trivial
  | s :: rest, placed, shaped, sane, stands, among => by
    rw [Stmt.allFindings] at among
    obtain ⟨among, among'⟩ := List.append_subset.1 among
    rw [Stmt.AllShaped] at shaped
    rw [Stmt.executeAll, Stmt.allLog]
    have first := Stmt.tells callers bound s placed.1 shaped.1 sane stands among
    refine first.seq (fun _ m' sane' same _ stands' => ?_) .refl .refl
    have later := Stmt.allTells callers bound rest placed.2 shaped.2 sane' (same ▸ stands') among'
    rwa [same] at later

end

end

/-- What is admitted to be called has as many parameters as there are arguments. -/
theorem Tells.admitted {m : Machine} {callee : Value} {arguments : List Value} (limit : Option Nat)
    (line : Nat) (sane : m.Sane found) (fits : callee.Sane found m.scopes) :
    Tells found none m (Run.admitted limit callee arguments line) []
      fun t what => what.Sane found t ∧ arguments.length = what.arity := by
  cases callee with
  | callable identity what =>
    rw [Run.admitted]
    by_cases complete : arguments.length = what.arity
    · rw [if_neg (not_not_intro complete)]
      refine .asking ?_
      by_cases deep : limit.any (· ≤ m.depth) = true
      · simp only [deep, if_true]
        exact .raise sane
      · simp only [deep]
        exact .pure sane ⟨fits, complete⟩
    · rw [if_pos complete]
      exact .raise sane
  | _ => exact .raise sane

theorem Tells.admitting {limit : Option Nat}
    {invoke : Callable → List Value → (line : Nat) → Run Value}
    {inside : Callable → List Value → (line : Nat) → Log}
    (tells : ∀ {m : Machine} {what : Callable} {arguments : List Value} (line : Nat), m.Sane found →
      what.Sane found m.scopes → (∀ v ∈ arguments, v.Sane found m.scopes) →
      arguments.length = what.arity →
      Tells found none m (invoke what arguments line) (inside what arguments line m)
        fun t v => v.Sane found t) :
    CallersTell found (Run.admitting limit invoke) (Run.admittingLog limit inside) := by
  intro m callee arguments line sane fits all
  refine (Tells.admitted limit line sane fits).step (fun what m' sane' _ keeps both => ?_) .none .refl
  refine .counted (tells line { sane' with } both.1 (fun v member => ?_) both.2)
  exact (all v member).mono keeps.preserves

theorem Tells.answer {m : Machine} (sane : m.Sane found) (now : Float) (which : Native)
    (arguments : List Value) (line : Nat) :
    Tells found none m (match which.answer now arguments with
      | .ok value => (Pure.pure value : Run Value)
      | .error text => Run.raise line (.native text)) [] fun t v => v.Sane found t := by
  cases answered : which.answer now arguments with
  | ok v =>
    obtain ⟨c, rfl⟩ := Native.exists_constant answered
    exact .pure sane (Value.ofConstant_sane c)
  | error text => exact .raise sane

theorem Tells.native {m : Machine} (host : Host) (bound : Nat) (which : Native)
    (arguments : List Value) (line : Nat) (sane : m.Sane found) :
    Tells found none m (Run.invoke host bound (.native which) arguments line) []
      fun t v => v.Sane found t := by
  cases bound <;>
    exact (Tells.clock sane host).last fun now _ sane' _ _ _ =>
      .answer sane' now which arguments line

theorem Tells.invoke (host : Host) (bound : Nat) {m : Machine} {what : Callable}
    {arguments : List Value} (line : Nat) (sane : m.Sane found) (fits : what.Sane found m.scopes)
    (all : ∀ v ∈ arguments, v.Sane found m.scopes) (complete : arguments.length = what.arity) :
    Tells found none m (Run.invoke host bound what arguments line)
      (Run.invokeLog host bound what arguments line m) fun t v => v.Sane found t := by
  induction bound generalizing m what arguments line with
  | zero =>
    cases what with
    | native which => exact .native host 0 which arguments line sane
    | closure f => exact .throw sane trivial
    | ofClass c => exact .newObject sane fits
  | succ bound ih =>
    cases what with
    | native which => exact .native host (bound + 1) which arguments line sane
    | closure f =>
      refine .enter sane fits all complete fun m' here sane' stands among => ?_
      have placed := (FunctionDecl.placed_iff _).1 fits.placed
      obtain ⟨-, -, -, shaped⟩ := (FunctionDecl.shaped_iff _).1 fits.shaped
      exact Stmt.allTells (.admitting ih) bound _ placed shaped sane' stands among
    | ofClass c => exact .newObject sane fits

theorem Tells.call (host : Host) (bound : Nat) :
    CallersTell found (Run.call host bound) (Run.callLog host bound) :=
  .admitting (.invoke host bound)

end Lox
