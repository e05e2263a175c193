import Lox.Proofs.Deeds.Evaluation
import Lox.Proofs.Unit

/-! All entries of a session are in order, whatever its units are and however they fare, and no unit
comes to an operator that has no meaning where it stands. -/
namespace Lox

variable {found more : List Finding} {s t : Scopes Value} {m : Machine}

theorem Value.Sane.widen {v : Value} (sane : v.Sane found s) (among : found ⊆ more) :
    v.Sane more s := by
  have closure {f : Closure} (sane : f.Sane found s) : f.Sane more s := by
    obtain ⟨here, follows, classed, part⟩ := sane.declared
    exact ⟨sane.placed, sane.shaped, here, follows, classed, fun _ member => among (part member)⟩
  have class' {c : Class} (sane : c.Sane found s) : c.Sane more s := by
    obtain ⟨here, follows, part⟩ := sane.declared
    exact ⟨sane.placed, sane.shaped, here, follows, fun _ member => among (part member)⟩
  cases v with
  | callable identity what =>
    cases what with
    | native which => trivial
    | closure f => exact closure sane
    | ofClass c => exact class' sane
  | object id c => exact class' sane
  | _ => trivial

/-- What was found before is still noted when other occurrences are. -/
theorem Machine.Sane.note {findings : List Finding} (sane : m.Sane found)
    (apart : ∀ i ∈ occurrences found, i ∉ occurrences findings) :
    (Session.note findings m).Sane found := by
  refine { sane with noted := fun f member => ?_ }
  obtain ⟨i, name, depth, rfl, noted⟩ := sane.noted f member
  have among : i ∈ occurrences found :=
    List.mem_map.2 ⟨_, List.mem_filterMap.2 ⟨_, member, rfl⟩, rfl⟩
  refine ⟨i, name, depth, rfl, ?_⟩
  rw [Session.distances_note_of_not_mem m (apart i among), noted]

/-- What was found without an error is known from then on. -/
theorem Machine.Sane.noteClean {findings : List Finding} (sane : m.Sane found)
    (apart : ∀ i ∈ occurrences found, i ∉ occurrences findings)
    (distinct : (occurrences findings).Nodup)
    (unknown : ∀ i ∈ occurrences findings, m.distances[i]? = none)
    (clean : findings.filterMap Finding.error? = []) :
    (Session.note findings m).Sane (found ++ findings) := by
  have before := sane.note apart
  refine { before with
    noted := fun f member => ?_
    values := fun i name v held => (before.values i name v held).widen (by simp)
    fields := fun i name v held => (before.fields i name v held).widen (by simp) }
  rcases List.mem_append.1 member with old | new
  · exact before.noted f old
  · cases f with
    | error d => exact absurd (List.filterMap_eq_nil_iff.1 clean _ new) (by simp [Finding.error?])
    | reference i name depth =>
      have among : i ∈ occurrences findings :=
        List.mem_map.2 ⟨_, List.mem_filterMap.2 ⟨_, new, rfl⟩, rfl⟩
      exact ⟨i, name, depth, rfl, Session.distances_note distinct new (unknown i among)⟩

/-- A session between two units. -/
structure Session.Sane (found : List Finding) (s : Session) : Prop where
  machine : s.machine.Sane found
  current : s.machine.current = globals
  past : ∀ i ∈ occurrences found, i < s.fresh
  unknown : ∀ i : Nat, s.fresh ≤ i → s.machine.distances[i]? = none

namespace Session

theorem start_sane (limit : Option Nat) : (start limit).Sane [] := by
  have only : (Machine.initial limit).scopes.list =
      #[⟨[(Native.clock.name, .callable 0 (.native .clock))], none⟩] := rfl
  refine ⟨⟨⟨Nat.zero_lt_one, fun i below apart => ?_⟩, by simp, fun i name v held => ?_, ?_⟩, rfl,
    ?_, ?_⟩
  · have first : i < 1 := below
    exact absurd (Nat.lt_one_iff.1 first) apart
  · by_cases first : i = 0
    · subst first
      have left : (start limit).machine.scopes.bindings 0 =
          [(Native.clock.name, .callable 0 (.native .clock))] := rfl
      rw [left, Bindings.get?] at held
      split at held
      · cases held
        trivial
      · cases held
    · obtain ⟨j, rfl⟩ := Nat.exists_eq_succ_of_ne_zero first
      have none : (start limit).machine.scopes.bindings (j + 1) = [] := by
        simp [Scopes.bindings, start, only]
      rw [none] at held
      cases held
  · intro i name v held
    have none : (start limit).machine.objects[i]? = none := rfl
    rw [none] at held
    cases held
  · intro i member
    simp [occurrences] at member
  · intro i _
    rfl

/-- A unit leaves a sane session, whatever becomes of it. -/
theorem Sane.run {s : Session} (sane : s.Sane found) (host : Host) (bound : Nat) (source : String) :
    (∃ more, (s.run host bound source).2.Sane (found ++ more)) ∧
      Spans (some globals) s.machine.scopes (s.unitLog host bound source)
        (s.run host bound source).2.machine.scopes ∧
      ∀ operator, (s.run host bound source).1 ≠ .meaningless operator := by
  rw [run_eq, unitLog]
  have advanced := compile_fresh_le source s.fresh
  cases compiled : Lox.compile source s.fresh with
  | mk result fresh =>
    rw [compiled] at advanced
    have past (i) (member : i ∈ occurrences found) : i < fresh :=
      Nat.lt_of_lt_of_le (sane.past i member) advanced
    cases result with
    | error errors =>
      refine ⟨⟨[], ?_⟩, .nil (.refl _), by simp⟩
      rw [List.append_nil]
      exact ⟨sane.machine, sane.current, past,
        fun i new => sane.unknown i (Nat.le_trans advanced new)⟩
    | ok program =>
      obtain ⟨ts, derived, spelled⟩ := compile_derived compiled
      have numbered := derived.numbered .topLevel
      have apart : ∀ i ∈ occurrences found, i ∉ occurrences (Lox.resolve program) :=
        fun i old new => Nat.lt_irrefl _ (Nat.lt_of_lt_of_le (sane.past i old) (numbered.within i new).1)
      have later (i : Nat) (new : fresh ≤ i) :
          (note (Lox.resolve program) s.machine).distances[i]? = none := by
        rw [distances_note_of_not_mem]
        · exact sane.unknown i (Nat.le_trans advanced new)
        · exact fun member => Nat.lt_irrefl _ (Nat.lt_of_lt_of_le (numbered.within i member).2 new)
      cases clean : (Lox.resolve program).filterMap Finding.error? with
      | cons first rest =>
        simp only [clean]
        refine ⟨⟨[], ?_⟩, .nil (.refl _), by simp⟩
        rw [List.append_nil]
        exact ⟨sane.machine.note apart, sane.current, past, later⟩
      | nil =>
        have noted := sane.machine.noteClean apart numbered.nodup
          (fun i member => sane.unknown i (numbered.within i member).1) clean
        have top : (note (Lox.resolve program) s.machine).current = globals := sane.current
        have outermost : Stands (note (Lox.resolve program) s.machine).scopes .topLevel none
            (note (Lox.resolve program) s.machine).current :=
          ⟨top ▸ .top, by simp [Surroundings.topLevel], fun _ => rfl, nofun, nofun⟩
        have tells := Stmt.allTells (Tells.call host bound) bound program derived.placed
          (derived.shaped spelled) noted outermost (List.subset_append_right _ _)
        rw [top] at tells
        have settled {m : Machine} (told : Told (found ++ Lox.resolve program) (some globals)
            (note (Lox.resolve program) s.machine) (Stmt.allLog (Run.call host bound)
              (Run.callLog host bound) bound none program (note (Lox.resolve program) s.machine)) m) :
            Session.Sane (found ++ Lox.resolve program) ⟨m, fresh⟩ := by
          refine ⟨told.sane, told.current.trans sane.current, fun i member => ?_, fun i new => ?_⟩
          · rw [occurrences_append] at member
            rcases List.mem_append.1 member with old | met
            · exact past i old
            · exact (numbered.within i met).2
          · rw [told.distances]
            exact later i new
        simp only [clean]
        rcases tells.cases with ⟨_, m, ran, told, -⟩ | ⟨stop, m, ran, told, fits⟩ <;>
          simp only [ran]
        · exact ⟨⟨_, settled told⟩, told.spans, by simp⟩
        · refine ⟨⟨_, settled told⟩, told.spans, fun operator same => ?_⟩
          cases stop with
          | meaningless operator => exact fits
          | _ => cases same

theorem Sane.rest {s : Session} (sane : s.Sane found) :
    Entry.Sane ⟨⟨none, none⟩, .rest, s.machine⟩ :=
  .of_agrees (sane.current ▸ sane.machine.rooted.inhabited) nofun (by simp) (by simp)

/-- The entries of units that are run one after the other are in order. -/
theorem Sane.log {s : Session} (sane : s.Sane found) (host : Host) (bound : Nat)
    (units : List String) : ∃ t, Spans (some globals) s.machine.scopes (s.log host bound units) t := by
  induction units generalizing found s with
  | nil => exact ⟨_, .cons sane.rest rfl (.nil (.refl _))⟩
  | cons source rest ih =>
    obtain ⟨⟨more, sane'⟩, spans, -⟩ := sane.run host bound source
    obtain ⟨t, spans'⟩ := ih sane'
    exact ⟨t, .cons sane.rest rfl (spans.append spans' .refl)⟩

end Session

end Lox
