import Lox.Proofs.LoopFree.Evaluation
import Lox.Proofs.Unit

/-! Units without loops end, one after the other. A unit may call functions of the units before it, so
what is known of those goes on in the store: none of them has a loop, and each is no larger than the
source it was declared in. -/
namespace Lox

namespace Session

/-- Between units no call is active, and all functions in the store are small. -/
structure Small (size : Nat) (s : Session) : Prop where
  holds : s.machine.Holds (FunctionDecl.Small size)
  idle : s.machine.depth = 0

/-- So many points a unit of so many tokens goes through at most. -/
def unitCost (size limit : Nat) : Nat := size * (size + 1) ^ limit + 1

/-- A unit fares the same whichever of the bounds it has, and ends. -/
structure Finishes (size limit : Nat) (clock : Nat → Float) (bound bound' : Nat) (source : String)
    (s : Session) : Prop where
  same : s.run ⟨clock, some limit⟩ bound source = s.run ⟨clock, some limit⟩ bound' source
  finished : (s.run ⟨clock, some limit⟩ bound source).1 ≠ .exhausted
  short : (s.unitPoints ⟨clock, some limit⟩ bound source).length ≤ unitCost size limit
  small : Small size (s.run ⟨clock, some limit⟩ bound source).2

theorem start_small (size : Nat) (outputLimit : Option Nat) : Small size (start outputLimit) := by
  have values : ∀ i name v, ((start outputLimit).machine.scopes.bindings i).get? name = some v →
      v.Holds (FunctionDecl.Small size) := by
    intro i name v found
    have only : (start outputLimit).machine.scopes.bindings i =
        if i = globals then [(Native.clock.name, .callable 0 (.native .clock))] else [] := by
      cases i <;> rfl
    rw [only] at found
    split at found
    · rw [Bindings.get?] at found
      split at found
      · cases found
        trivial
      · cases found
    · cases found
  have fields : ∀ (i : ObjectId) name v,
      Bindings.get? name ((start outputLimit).machine.objects[i]?.getD []) = some v →
        v.Holds (FunctionDecl.Small size) := by
    intro i name v found
    cases found
  exact ⟨⟨values, fields⟩, rfl⟩

theorem Small.note {size : Nat} {s : Session} (small : Small size s) (findings : List Finding) :
    (Session.note findings s.machine).Holds (FunctionDecl.Small size) :=
  ⟨small.holds.values, small.holds.fields⟩

theorem Finishes.of_eq {size limit bound bound' : Nat} {clock : Nat → Float} {source : String}
    {s : Session} {r : Outcome × Session}
    (ran : s.run ⟨clock, some limit⟩ bound source = r)
    (ran' : s.run ⟨clock, some limit⟩ bound' source = r) (finished : r.1 ≠ .exhausted)
    (short : (s.unitPoints ⟨clock, some limit⟩ bound source).length ≤ unitCost size limit)
    (small : Small size r.2) : Finishes size limit clock bound bound' source s := by
  subst ran
  exact ⟨ran'.symm, finished, short, small⟩

/-- The statements of a unit end. Nothing is larger than the tokens of the unit and the functions in the
store, and the limit on calls leaves room for no more calls than the bounds do. -/
theorem Small.execute {size limit bound bound' : Nat} {source : String} {program : List Stmt}
    {s : Session} {first next : Occurrence} (clock : Nat → Float) (small : Small size s)
    (free : LoopFree source) (short : (scan source).1.length ≤ size) (enough : limit ≤ bound)
    (enough' : limit ≤ bound') (compiled : Lox.compile source first = (.ok program, next))
    (findings : List Finding) :
    Settles (FunctionDecl.Small size) (Session.note findings s.machine)
      (Stmt.executeAll (Run.call ⟨clock, some limit⟩ bound) bound program)
      (Stmt.executeAll (Run.call ⟨clock, some limit⟩ bound') bound' program)
      (Stmt.allPoints (Run.call ⟨clock, some limit⟩ bound) (Run.callPoints ⟨clock, some limit⟩ bound)
        bound program (Session.note findings s.machine))
      (size * (size + 1) ^ limit) fun _ => True := by
  have le : Stmt.allSize program ≤ size := Nat.le_trans (free.size_le compiled) short
  have callers : CallersSettle (FunctionDecl.Small size) 0 (callCost size limit)
      (Run.call ⟨clock, some limit⟩ bound) (Run.call ⟨clock, some limit⟩ bound')
      (Run.callPoints ⟨clock, some limit⟩ bound) :=
    .call clock limit enough enough' (Nat.zero_add limit)
  have settles := Stmt.allSettle bound bound' callers (small.note findings) small.idle program
    (free compiled) le
  exact settles.widen (Nat.mul_le_mul le (callCost_le size limit))

theorem Small.run {size limit bound bound' : Nat} {source : String} {s : Session}
    (clock : Nat → Float) (small : Small size s) (free : LoopFree source)
    (short : (scan source).1.length ≤ size) (enough : limit ≤ bound) (enough' : limit ≤ bound') :
    Finishes size limit clock bound bound' source s := by
  have ran (bound : Nat) := s.run_eq ⟨clock, some limit⟩ bound source
  have visited : s.unitPoints ⟨clock, some limit⟩ bound source = _ := unitPoints.eq_1 _ _ _ _
  cases compiled : Lox.compile source s.fresh with
  | mk result fresh =>
    cases result with
    | error errors =>
      simp only [compiled] at ran visited
      exact .of_eq (ran bound) (ran bound') (by simp) (by simp [visited]) ⟨small.holds, small.idle⟩
    | ok program =>
      cases clean : (Lox.resolve program).filterMap Finding.error? with
      | cons first rest =>
        simp only [compiled, clean] at ran visited
        exact .of_eq (ran bound) (ran bound') (by simp) (by simp [visited])
          ⟨small.note (Lox.resolve program), small.idle⟩
      | nil =>
        have settles := small.execute clock free short enough enough' compiled (Lox.resolve program)
        simp only [compiled, clean] at ran visited
        have within : (s.unitPoints ⟨clock, some limit⟩ bound source).length ≤ unitCost size limit := by
          rw [visited]
          exact Nat.succ_le_succ settles.short
        rcases settles.cases with ⟨_, m, done, done', keeps, -⟩ | ⟨stop, m, done, done', keeps, stopped⟩
        · have ended := ran bound
          have ended' := ran bound'
          simp only [done] at ended
          simp only [done'] at ended'
          exact .of_eq ended ended' (by simp) within ⟨keeps.holds, keeps.depth.trans small.idle⟩
        · have ended := ran bound
          have ended' := ran bound'
          simp only [done] at ended
          simp only [done'] at ended'
          have finished : Outcome.ofStop stop ≠ .exhausted := by
            cases stop with
            | exhausted => cases stopped
            | _ => simp [Outcome.ofStop]
          exact .of_eq ended ended' finished within ⟨keeps.holds, keeps.depth.trans small.idle⟩

/-- Units without loops leave a session in which the next one finishes. -/
theorem Small.runEach {size limit bound : Nat} {units : List String} {s : Session}
    (clock : Nat → Float) (small : Small size s) (free : ∀ u ∈ units, LoopFree u)
    (short : ∀ u ∈ units, (scan u).1.length ≤ size) (enough : limit ≤ bound) :
    s.runEach ⟨clock, some limit⟩ bound units = s.runEach ⟨clock, some limit⟩ limit units ∧
    (∀ outcome ∈ (s.runEach ⟨clock, some limit⟩ bound units).1, outcome ≠ .exhausted) ∧
    Small size (s.runEach ⟨clock, some limit⟩ bound units).2 := by
  induction units generalizing s with
  | nil => exact ⟨rfl, by simp [Session.runEach], small⟩
  | cons source rest ih =>
    obtain ⟨free, frees⟩ := List.forall_mem_cons.1 free
    obtain ⟨short, shorts⟩ := List.forall_mem_cons.1 short
    have first := small.run clock free short enough (Nat.le_refl limit)
    obtain ⟨same, finished, small⟩ := ih first.small frees shorts
    constructor
    · simp only [Session.runEach]
      rw [same, first.same]
    constructor
    · exact List.forall_mem_cons.2 ⟨first.finished, finished⟩
    · exact small

/-- However deep its functions call themselves and each other, a unit without loops ends in a session
without loops: with every bound from the limit on nested calls on it fares the same, and so did the units
before it. It goes through no more points than the sizes of the units and that limit allow. -/
theorem loopFree_terminates (clock : Nat → Float) (limit : Nat) (outputLimit : Option Nat)
    (units : List String) (source : String) (size : Nat)
    (free : ∀ u ∈ source :: units, LoopFree u)
    (short : ∀ u ∈ source :: units, (scan u).1.length ≤ size) (bound : Nat) (enough : limit ≤ bound) :
    let host : Host := ⟨clock, some limit⟩
    let s := ((start outputLimit).runEach host bound units).2
    (start outputLimit).runEach host bound units = (start outputLimit).runEach host limit units ∧
    (∀ outcome ∈ ((start outputLimit).runEach host bound units).1, outcome ≠ .exhausted) ∧
    s.run host bound source = s.run host limit source ∧
    (s.run host bound source).1 ≠ .exhausted ∧
    (s.unitPoints host bound source).length ≤ size * (size + 1) ^ limit + 1 := by
  intro host s
  obtain ⟨free, frees⟩ := List.forall_mem_cons.1 free
  obtain ⟨short, shorts⟩ := List.forall_mem_cons.1 short
  obtain ⟨same, finished, small⟩ :=
    (start_small size outputLimit).runEach clock frees shorts enough
  have last := small.run clock free short enough (Nat.le_refl limit)
  exact ⟨same, finished, last.same, last.finished, last.short⟩

/-- A function that calls itself twice, without end. -/
def branching : String := "fun f() \x7b f(); f(); \x7d"

theorem loopFree_terminates_branching :
    (∀ u ∈ ["f();", branching], LoopFree u) ∧ (∀ u ∈ ["f();", branching], (scan u).1.length ≤ 15) ∧
    2 ≤ 8 ∧
    (((start none).runEach ⟨fun _ => 0, some 2⟩ 8 [branching]).2.run ⟨fun _ => 0, some 2⟩ 8
      "f();").1.diagnostics = [.runtime 1 .stackOverflow] ∧
    (((start none).runEach ⟨fun _ => 0, some 2⟩ 8 [branching]).2.run ⟨fun _ => 0, some 2⟩ 8 "f();").1 ≠
      .exhausted := by
  have free : ∀ u ∈ ["f();", branching], LoopFree u := by
    have words : ∀ u ∈ ["f();", branching], ∀ t ∈ (scan u).1, t.kind ∉ Grammar.loopWords := by
      decide +kernel
    exact fun u member => .of_words (words u member)
  have short : ∀ u ∈ ["f();", branching], (scan u).1.length ≤ 15 := by decide +kernel
  have ends := loopFree_terminates (fun _ => 0) 2 none [branching] "f();" 15 free short 8 (by decide)
  constructor
  · exact free
  constructor
  · exact short
  constructor
  · decide
  constructor
  · decide +kernel
  · exact ends.2.2.2.1

end Session

end Lox
