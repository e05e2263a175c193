import Lox.Proofs.Deeds.Units
import Lox.Proofs.Fields.Units
import Lox.Proofs.Grammar.Identities

/-! What the trees of a session are good for: no run comes to an operator without a meaning, and nothing is
noted twice of one occurrence. -/
namespace Lox

/-- How many scopes out a local occurrence refers. -/
def Finding.noted? : Finding → Option (Occurrence × Nat)
  | .reference id _ (some depth) => some (id, depth)
  | .reference _ _ none | .error _ => none

/-- Keeps in mind one thing after the other. -/
def noteEach (notes : List (Occurrence × Nat)) (known : Std.TreeMap Occurrence Nat) :
    Std.TreeMap Occurrence Nat :=
  notes.foldl (fun known note => known.insert note.1 note.2) known

theorem noteEach_append (a b : List (Occurrence × Nat)) (known : Std.TreeMap Occurrence Nat) :
    noteEach (a ++ b) known = noteEach b (noteEach a known) := List.foldl_append

theorem noted_sublist (findings : List Finding) :
    ((findings.filterMap Finding.noted?).map (·.1)).Sublist (occurrences findings) := by
  induction findings with
  | nil => exact .slnil
  | cons f rest ih =>
    cases f with
    | error d => exact ih
    | reference id name depth =>
      cases depth with
      | none => exact ih.cons id
      | some depth => exact ih.cons_cons id

namespace Session

variable {s : Session} {source : String}

theorem distances_note_eq (findings : List Finding) (m : Machine) :
    (note findings m).distances = noteEach (findings.filterMap Finding.noted?) m.distances := by
  induction findings generalizing m with
  | nil => rfl
  | cons f rest ih =>
    rw [note_cons, ih]
    cases f with
    | error d => rfl
    | reference id name depth => cases depth <;> rfl

/-- What one unit notes of its occurrences, be it refused by the resolver or not. -/
def unitNotes (source : String) (s : Session) : List (Occurrence × Nat) :=
  match Lox.compile source s.fresh with
  | (.error _, _) => []
  | (.ok program, _) => (Lox.resolve program).filterMap Finding.noted?

/-- What units note one after the other. -/
def notes (host : Host) (bound : Nat) : List String → Session → List (Occurrence × Nat)
  | [], _ => []
  | source :: rest, s =>
    s.unitNotes source ++ notes host bound rest (s.run host bound source).2

theorem fresh_run (host : Host) (bound : Nat) (source : String) (s : Session) :
    (s.run host bound source).2.fresh = (Lox.compile source s.fresh).2 := by
  rw [run_eq]
  cases Lox.compile source s.fresh with
  | mk result fresh =>
    cases result with
    | error errors => rfl
    | ok program =>
      cases clean : (Lox.resolve program).filterMap Finding.error? with
      | cons first rest => simp only [clean]
      | nil =>
        simp only [clean]
        cases Stmt.executeAll (Run.call host bound) bound program
          (note (Lox.resolve program) s.machine) <;> rfl

/-- A unit notes one thing at most of an occurrence, which is one of its own. -/
theorem unitNotes_distinct (source : String) (s : Session) :
    ((s.unitNotes source).map (·.1)).Nodup ∧
      ∀ id ∈ (s.unitNotes source).map (·.1), s.fresh ≤ id ∧ id < (Lox.compile source s.fresh).2 := by
  rw [unitNotes]
  cases compiled : Lox.compile source s.fresh with
  | mk result next =>
    cases result with
    | error errors => simp
    | ok program =>
      obtain ⟨ts, derived, -⟩ := compile_reads compiled
      have numbered := derived.numbered .topLevel
      have among := noted_sublist (Lox.resolve program)
      exact ⟨among.nodup numbered.nodup, fun id member => numbered.within id (among.subset member)⟩

theorem notes_distinct (host : Host) (bound : Nat) (units : List String) (s : Session) :
    ((s.notes host bound units).map (·.1)).Nodup ∧
      ∀ id ∈ (s.notes host bound units).map (·.1), s.fresh ≤ id := by
  induction units generalizing s with
  | nil => simp [notes]
  | cons source rest ih =>
    obtain ⟨distinct, within⟩ := unitNotes_distinct source s
    obtain ⟨distinct', later⟩ := ih (s.run host bound source).2
    rw [fresh_run] at later
    rw [notes, List.map_append]
    refine ⟨List.nodup_append.2 ⟨distinct, distinct', ?_⟩, fun id member => ?_⟩
    · rintro id here other there rfl
      exact Nat.lt_irrefl _ (Nat.lt_of_lt_of_le (within id here).2 (later id there))
    · rcases List.mem_append.1 member with here | there
      · exact (within id here).1
      · exact Nat.le_trans (compile_fresh_le source s.fresh) (later id there)

/-- Nothing but resolution notes anything. -/
theorem distances_run {made : List Class} (host : Host) (bound : Nat) (source : String)
    (populated : s.machine.Populated made) :
    (s.run host bound source).2.machine.distances =
      noteEach (s.unitNotes source) s.machine.distances := by
  rw [(run_remembers host bound source populated).distances, noted, unitNotes]
  cases Lox.compile source s.fresh with
  | mk result fresh =>
    cases result with
    | error errors => rfl
    | ok program => exact distances_note_eq _ _

theorem distances_runEach {made : List Class} (host : Host) (bound : Nat) (units : List String)
    (populated : s.machine.Populated made) :
    (s.runEach host bound units).2.machine.distances =
      noteEach (s.notes host bound units) s.machine.distances := by
  induction units generalizing made s with
  | nil => rfl
  | cons source rest ih =>
    rw [notes, noteEach_append, ← distances_run host bound source populated]
    exact ih (run_recorded host bound source populated).populated

theorem Sane.runEach {found : List Finding} (sane : s.Sane found) (host : Host) (bound : Nat)
    (units : List String) : ∀ operator, .meaningless operator ∉ (s.runEach host bound units).1 := by
  intro operator
  induction units generalizing found s with
  | nil => simp [Session.runEach]
  | cons source rest ih =>
    obtain ⟨⟨more, sane'⟩, -, meaning⟩ := sane.run host bound source
    intro member
    rcases List.mem_cons.1 member with first | later
    · exact meaning operator first.symm
    · exact ih sane' later

/-- Whatever the tokens are, the trees that are read are well formed down to the innermost bodies, and
there is no identity that two of their nodes share, be they in one tree or in two. So no unit of a session
comes to an operator that has no meaning where it stands, and no occurrence is noted twice: the distances
are what was noted, one thing after the other, and each is about another occurrence. -/
theorem parsed_meaningful (lists : List (List Token)) (fresh : Occurrence) (host : Host) (bound : Nat)
    (outputLimit : Option Nat) (units : List String) :
    (∀ program ∈ parseEach lists fresh, Stmt.AllShaped (fun _ => True) program) ∧
    ((parseEach lists fresh).flatMap Stmt.allIds).Nodup ∧
    (∀ operator, .meaningless operator ∉ ((start outputLimit).runEach host bound units).1) ∧
    (((start outputLimit).notes host bound units).map (·.1)).Nodup ∧
    ((start outputLimit).runEach host bound units).2.machine.distances =
      noteEach ((start outputLimit).notes host bound units) {} :=
  ⟨(parseEach_distinct lists fresh).1, (parseEach_distinct lists fresh).2,
    (start_sane outputLimit).runEach host bound units,
    (notes_distinct host bound units (start outputLimit)).1,
    distances_runEach host bound units (start_populated outputLimit)⟩

end Session

end Lox
