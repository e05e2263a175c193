import Lox.Proofs.Scoping.Evaluation
import Lox.Proofs.Scoping.Visible
import Lox.Proofs.Unit

/-! All points of a session are sound, whatever its units are and however they fare: what a later unit
finds is not about the occurrences of an earlier one, and a machine stays sound when it is noted. -/
namespace Lox

variable {found more : List Finding} {s t : Scopes Value} {m : Machine}

namespace Value

theorem Fits.widen {v : Value} (fits : v.Fits found s) (among : found ⊆ more) : v.Fits more s := by
  have closure {f : Closure} (fits : f.Fits found s) : f.Fits more s := by
    obtain ⟨here, covers, part⟩ := fits.covered
    exact ⟨fits.placed, fits.spelled, here, covers, fun _ member => among (part member)⟩
  have class' {c : Class} (fits : c.Fits found s) : c.Fits more s := by
    obtain ⟨here, covers, part⟩ := fits.covered
    exact ⟨fits.placed, fits.spelled, here, covers, fun _ member => among (part member)⟩
  cases v with
  | callable identity what =>
    cases what with
    | native which => trivial
    | closure f => exact closure fits
    | ofClass c => exact class' fits
  | object id c => exact class' fits
  | _ => trivial

end Value

theorem Point.Sound.widen {p : Point} (sound : p.Sound found) (among : found ⊆ more) :
    p.Sound more := by
  refine ⟨sound.current, sound.rooted, fun i name reading => ?_⟩
  obtain ⟨depth, member, noted, binds⟩ := sound.read i name reading
  exact ⟨depth, among member, noted, binds⟩

theorem Passes.widen {points : List Point} (passes : Passes found s points t)
    (among : found ⊆ more) : Passes more s points t :=
  { passes with sound := fun p member => (passes.sound p member).widen among }

/-- What was found before is still noted when other occurrences are. -/
theorem Machine.Sound.note {findings : List Finding} (sound : m.Sound found)
    (apart : ∀ i ∈ occurrences found, i ∉ occurrences findings) :
    (Session.note findings m).Sound found := by
  refine { sound with noted := fun f member => ?_ }
  obtain ⟨i, name, depth, rfl, noted⟩ := sound.noted f member
  have among : i ∈ occurrences found :=
    List.mem_map.2 ⟨_, List.mem_filterMap.2 ⟨_, member, rfl⟩, rfl⟩
  refine ⟨i, name, depth, rfl, ?_⟩
  rw [Session.distances_note_of_not_mem m (apart i among), noted]

/-- What was found without an error is known from then on. -/
theorem Machine.Sound.noteClean {findings : List Finding} (sound : m.Sound found)
    (apart : ∀ i ∈ occurrences found, i ∉ occurrences findings)
    (distinct : (occurrences findings).Nodup)
    (unknown : ∀ i ∈ occurrences findings, m.distances[i]? = none)
    (clean : findings.filterMap Finding.error? = []) :
    (Session.note findings m).Sound (found ++ findings) := by
  have before := sound.note apart
  refine { before with
    noted := fun f member => ?_
    values := fun i name v held => (before.values i name v held).widen (by simp)
    fields := fun i name v held => (before.fields i name v held).widen (by simp) }
  rcases List.mem_append.1 member with old | new
  · exact before.noted f old
  · cases f with
    | error d => exact absurd (List.filterMap_eq_nil_iff.1 clean _ new) (by simp [Finding.error?])
    | reference i name depth =>
      have among : i ∈ occurrences findings :=
        List.mem_map.2 ⟨_, List.mem_filterMap.2 ⟨_, new, rfl⟩, rfl⟩
      exact ⟨i, name, depth, rfl, Session.distances_note distinct new (unknown i among)⟩

/-- A session between two units. -/
structure Session.Sound (found : List Finding) (s : Session) : Prop where
  machine : s.machine.Sound found
  current : s.machine.current = globals
  past : ∀ i ∈ occurrences found, i < s.fresh
  unknown : ∀ i : Nat, s.fresh ≤ i → s.machine.distances[i]? = none

namespace Session

theorem start_sound (limit : Option Nat) : (start limit).Sound [] := by
  have only : (Machine.initial limit).scopes.list =
      #[⟨[(Native.clock.name, .callable 0 (.native .clock))], none⟩] := rfl
  refine ⟨⟨⟨Nat.zero_lt_one, fun i below apart => ?_⟩, by simp, fun i name v held => ?_, ?_⟩, rfl, ?_, ?_⟩
  · have first : i < 1 := below
    exact absurd (Nat.lt_one_iff.1 first) apart
  · by_cases first : i = 0
    · subst first
      have left : (start limit).machine.scopes.bindings 0 =
          [(Native.clock.name, .callable 0 (.native .clock))] := rfl
      rw [left, Bindings.get?] at held
      split at held
      · cases held
        trivial
      · cases held
    · obtain ⟨j, rfl⟩ := Nat.exists_eq_succ_of_ne_zero first
      have none : (start limit).machine.scopes.bindings (j + 1) = [] := by
        simp [Scopes.bindings, start, only]
      rw [none] at held
      cases held
  · intro i name v held
    have none : (start limit).machine.objects[i]? = none := rfl
    rw [none] at held
    cases held
  · intro i member
    simp [occurrences] at member
  · intro i _
    rfl

/-- A unit leaves a sound session, and what was found in it is known if it was executed. -/
theorem Sound.run {s : Session} (sound : s.Sound found) (host : Host) (bound : Nat)
    (source : String) : ∃ more, (s.run host bound source).2.Sound (found ++ more) ∧
      Passes (found ++ more) s.machine.scopes (s.unitPoints host bound source)
        (s.run host bound source).2.machine.scopes ∧
      ∀ f ∈ more, ∃ program m, ⟨.unit program, m⟩ ∈ s.unitPoints host bound source ∧
        f ∈ Lox.resolve program ∧ Stmt.AllPlaced program := by
  rw [run_eq, unitPoints]
  have advanced := compile_fresh_le source s.fresh
  cases compiled : Lox.compile source s.fresh with
  | mk result fresh =>
    rw [compiled] at advanced
    have past (i) (member : i ∈ occurrences found) : i < fresh :=
      Nat.lt_of_lt_of_le (sound.past i member) advanced
    have unknown (i : Nat) (new : fresh ≤ i) : s.machine.distances[i]? = none :=
      sound.unknown i (Nat.le_trans advanced new)
    cases result with
    | error errors =>
      refine ⟨[], ?_, .nil (Scopes.le_refl _), by simp⟩
      rw [List.append_nil]
      exact ⟨sound.machine, sound.current, past, unknown⟩
    | ok program =>
      obtain ⟨ts, derived, spelled⟩ := compile_derived compiled
      have numbered := derived.numbered .topLevel
      have apart : ∀ i ∈ occurrences found, i ∉ occurrences (Lox.resolve program) :=
        fun i old new => Nat.lt_irrefl _ (Nat.lt_of_lt_of_le (sound.past i old) (numbered.within i new).1)
      have later (i : Nat) (new : fresh ≤ i) :
          (note (Lox.resolve program) s.machine).distances[i]? = none := by
        rw [distances_note_of_not_mem]
        · exact unknown i new
        · exact fun member => Nat.lt_irrefl _ (Nat.lt_of_lt_of_le (numbered.within i member).2 new)
      cases clean : (Lox.resolve program).filterMap Finding.error? with
      | cons first rest =>
        simp only [clean]
        refine ⟨[], ?_, .nil (Scopes.le_refl _), by simp⟩
        rw [List.append_nil]
        exact ⟨sound.machine.note apart, sound.current, past, later⟩
      | nil =>
        have noted := sound.machine.noteClean apart numbered.nodup
          (fun i member => sound.unknown i (numbered.within i member).1) clean
        have outermost : Covers (note (Lox.resolve program) s.machine).scopes
            Surroundings.topLevel.scopes (note (Lox.resolve program) s.machine).current :=
          sound.current ▸ .top
        have visits := Stmt.allVisits (Visits.call host bound) bound program derived.placed
          (derived.spelled spelled) noted outermost (List.subset_append_right _ _)
        have begins : Point.Sound (found ++ Lox.resolve program)
            ⟨.unit program, note (Lox.resolve program) s.machine⟩ :=
          Point.sound_of_reading?_none noted (Covers.top.lt_size noted.rooted |> (sound.current ▸ ·)) rfl
        have settled {m : Machine} (after : After (found ++ Lox.resolve program)
            (note (Lox.resolve program) s.machine) (Stmt.allPoints (Run.call host bound)
              (Run.callPoints host bound) bound program (note (Lox.resolve program) s.machine)) m) :
            Session.Sound (found ++ Lox.resolve program) ⟨m, fresh⟩ := by
          refine ⟨after.sound, after.current.trans sound.current, fun i member => ?_, fun i new => ?_⟩
          · rw [occurrences_append] at member
            rcases List.mem_append.1 member with old | met
            · exact past i old
            · exact (numbered.within i met).2
          · rw [after.distances]
            exact later i new
        have known : ∀ f ∈ Lox.resolve program, ∃ program' m, (⟨.unit program', m⟩ : Point) ∈
            (⟨.unit program, note (Lox.resolve program) s.machine⟩ : Point) ::
              Stmt.allPoints (Run.call host bound) (Run.callPoints host bound) bound program
                (note (Lox.resolve program) s.machine) ∧
            f ∈ Lox.resolve program' ∧ Stmt.AllPlaced program' :=
          fun f member => ⟨program, _, List.mem_cons_self .., member, derived.placed⟩
        simp only [clean]
        rcases visits.cases with ⟨_, m, ran, after, -⟩ | ⟨stop, m, ran, after, -⟩ <;>
          simp only [ran] <;>
          exact ⟨Lox.resolve program, settled after, .cons begins after.passes, known⟩

/-- The points of units run one after the other are sound. -/
theorem Sound.points {s : Session} (sound : s.Sound found) (host : Host) (bound : Nat)
    (units : List String) : ∃ more t, Passes (found ++ more) s.machine.scopes
      (s.points host bound units) t ∧
      ∀ f ∈ more, ∃ program m, ⟨.unit program, m⟩ ∈ s.points host bound units ∧
        f ∈ Lox.resolve program ∧ Stmt.AllPlaced program := by
  have rests {found : List Finding} {s : Session} (sound : s.Sound found) :
      Point.Sound found ⟨.rest, s.machine⟩ :=
    Point.sound_of_reading?_none sound.machine
      (sound.current ▸ Covers.top.lt_size sound.machine.rooted) rfl
  induction units generalizing found s with
  | nil => exact ⟨[], _, .cons ((rests sound).widen (by simp)) (.nil (Scopes.le_refl _)), by simp⟩
  | cons source rest ih =>
    obtain ⟨first, sound', passes, known⟩ := sound.run host bound source
    obtain ⟨others, t, passes', known'⟩ := ih sound'
    rw [List.append_assoc] at passes'
    have wider : found ++ first ⊆ found ++ (first ++ others) := by
      rw [← List.append_assoc]
      exact List.subset_append_left _ _
    refine ⟨first ++ others, t, ?_, fun f member => ?_⟩
    · exact .cons ((rests sound).widen (List.subset_append_left _ _))
        ((passes.widen wider).append passes')
    · rcases List.mem_append.1 member with early | late
      · obtain ⟨program, m, among, rest⟩ := known f early
        exact ⟨program, m, List.mem_cons_of_mem _ (List.mem_append_left _ among), rest⟩
      · obtain ⟨program, m, among, rest⟩ := known' f late
        exact ⟨program, m, List.mem_cons_of_mem _ (List.mem_append_right _ among), rest⟩

/-- At every point of a session all chains of scopes come to the globals, later points keep all names
and links, and what is read with a distance is bound so many scopes out. What is read in vain has no
distance, is no global, and was declared in no local scope around its occurrence. -/
theorem points_bound (host : Host) (bound : Nat) (outputLimit : Option Nat)
    (units : List String) :
    (∀ p ∈ (start outputLimit).points host bound units,
      p.machine.current < p.machine.scopes.list.size ∧
      ∀ i < p.machine.scopes.list.size, p.machine.scopes.Grounded i) ∧
    ((start outputLimit).points host bound units).Pairwise
      (fun p q => p.machine.scopes ≤ q.machine.scopes) ∧
    ∀ p ∈ (start outputLimit).points host bound units, ∀ i name, p.reading? = some (i, name) →
      (∀ distance, p.machine.distances[i]? = some distance → ∃ j,
        p.machine.scopes.ancestor? p.machine.current distance = some j ∧
        (p.machine.scopes.bindings j).binds name.lexeme = true) ∧
      ∀ stop m, Run.readVariable i name p.machine = .error stop m →
        stop = .raised (.runtime name.line (.undefinedVariable name.lexeme)) ∧
        p.machine.distances[i]? = none ∧
        (p.machine.scopes.bindings globals).binds name.lexeme = false ∧
        ∃ program k names, ⟨.unit program, k⟩ ∈ (start outputLimit).points host bound units ∧
          (i, names) ∈ Stmt.allSights none program ∧ name.lexeme ∉ names := by
  obtain ⟨found, t, passes, known⟩ := (start_sound outputLimit).points host bound units
  refine ⟨fun p member => ?_, passes.ordered, fun p member i name reading => ?_⟩
  · have sound := passes.sound p member
    exact ⟨sound.current, fun i below => sound.rooted.grounded below⟩
  · obtain ⟨depth, among, noted, binds⟩ := (passes.sound p member).read i name reading
    refine ⟨fun distance far => binds distance (noted ▸ far), fun stop m raised => ?_⟩
    rw [Run.readVariable_apply, Machine.scopeOf, noted] at raised
    cases depth with
    | some distance =>
      obtain ⟨j, out, bound'⟩ := binds distance rfl
      obtain ⟨v, held⟩ := Option.isSome_iff_exists.1 bound'
      simp [out, held] at raised
    | none =>
      obtain ⟨program, k, started, resolved, placed⟩ := known _ among
      obtain ⟨names, sighted, unseen⟩ := resolve_seen placed i name.lexeme none resolved
      have unbound : (p.machine.scopes.bindings globals).binds name.lexeme = false := by
        cases held : (p.machine.scopes.bindings globals).get? name.lexeme with
        | none => simp [Bindings.binds, held]
        | some v => simp [Scopes.holder?_globals, Bindings.binds, held] at raised
      simp only [Scopes.holder?_globals, unbound, Bool.false_eq_true, if_false,
        Option.bind_none, EStateM.Result.error.injEq] at raised
      exact ⟨raised.1.symm, noted, unbound, program, k, names, started, sighted, unseen.1 rfl⟩

/-- One unit reads a local name, the next one a name that is declared nowhere. -/
def localThenMissing : List Point :=
  (start none).points ⟨fun _ => 0, some maxCallDepth⟩ 8 ["{ var a = 1; print a; }", "print b;"]

theorem points_bound_localThenMissing :
    ∃ p ∈ localThenMissing, ∃ q ∈ localThenMissing,
      (p.reading? = some (0, ⟨.identifier, "a", none, 1⟩) ∧ p.machine.distances[0]? = some 0 ∧
        ∃ j, p.machine.scopes.ancestor? p.machine.current 0 = some j ∧
          (p.machine.scopes.bindings j).binds "a" = true) ∧
      q.reading? = some (1, ⟨.identifier, "b", none, 1⟩) ∧
      ∃ stop m, Run.readVariable 1 ⟨.identifier, "b", none, 1⟩ q.machine = .error stop m ∧
        stop = .raised (.runtime 1 (.undefinedVariable "b")) ∧ q.machine.distances[1]? = none := by
  have all := points_bound ⟨fun _ => 0, some maxCallDepth⟩ 8 none
    ["{ var a = 1; print a; }", "print b;"]
  have first : localThenMissing[6]?.map (fun p => (p.reading?, p.machine.distances[0]?)) =
      some (some (0, ⟨.identifier, "a", none, 1⟩), some 0) := by
    decide +kernel
  have second : localThenMissing[10]?.map (fun q => (q.reading?,
      ((q.machine.scopeOf 1 ⟨.identifier, "b", none, 1⟩).bind fun i =>
        (q.machine.scopes.bindings i).get? "b").isNone)) =
      some (some (1, ⟨.identifier, "b", none, 1⟩), true) := by
    decide +kernel
  obtain ⟨p, atSix, both⟩ := Option.map_eq_some_iff.1 first
  obtain ⟨q, atTen, both'⟩ := Option.map_eq_some_iff.1 second
  obtain ⟨reading, distance⟩ := Prod.mk.inj both
  obtain ⟨reading', absent⟩ := Prod.mk.inj both'
  have member := List.mem_of_getElem? atSix
  have member' := List.mem_of_getElem? atTen
  have raised : Run.readVariable 1 ⟨.identifier, "b", none, 1⟩ q.machine =
      .error (.raised (Scopes.undefined ⟨.identifier, "b", none, 1⟩)) q.machine := by
    rw [Run.readVariable_apply, Option.isNone_iff_eq_none.1 absent]
  have vain := (all.2.2 q member' _ _ reading').2 _ _ raised
  exact ⟨p, member, q, member', ⟨reading, distance, (all.2.2 p member _ _ reading).1 0 distance⟩,
    reading', _, _, raised, vain.1, vain.2.1⟩

end Session

end Lox
