import Lox.Proofs.Grammar.Numbering
import Lox.Proofs.Grammar.Source
import Lox.Proofs.Order.Lines
import Lox.Proofs.Static.Reporting

/-! The order in which resolution reports errors. Most trees are resolved in the order of their tokens.
Two are not: of a field assignment the value is resolved before the object, and of a `for` the body
before the increment. So the errors are in the order of the source iff in no such pair something is
reported on a later line first. -/
namespace Lox

/-- What is reported of the one is on no later line than what is reported of the other. -/
def Finding.NoLater (first second : List Finding) : Prop :=
  ∀ d ∈ errorsOf first, ∀ e ∈ errorsOf second, d.NotAfter e

theorem Finding.inOrder_append (first second : List Finding) :
    Diagnostic.InOrder (errorsOf (first ++ second)) ↔ Diagnostic.InOrder (errorsOf first) ∧
      Diagnostic.InOrder (errorsOf second) ∧ Finding.NoLater first second := by
  rw [errorsOf_append]
  exact List.pairwise_append

mutual

/-- No value of a field assignment is reported on a later line than its object. -/
def Expr.Orderly (here : Surroundings) : Expr → Prop
  | .constant _ | .read _ _ | .this _ _ => True
  | .group part | .unary _ part | .assign _ _ part | .get part _ => part.Orderly here
  | .binary left _ right | .logical left _ right => left.Orderly here ∧ right.Orderly here
  | .set object _ value =>
    value.Orderly here ∧ object.Orderly here ∧
      Finding.NoLater (value.findings here) (object.findings here)
  | .call callee _ arguments => callee.Orderly here ∧ Expr.AllOrderly here arguments

def Expr.AllOrderly (here : Surroundings) : List Expr → Prop
  | [] => True
  | e :: rest => e.Orderly here ∧ Expr.AllOrderly here rest

end

/-- What a loop repeats is not reported on a later line than the increment behind it. -/
def Stmt.RoundOrderly (here : Surroundings) : Stmt → Prop
  | .block [body, .expression increment] =>
    Finding.NoLater (body.findings (here.enter []))
      (increment.findings ((here.enter []).after body))
  | _ => True

mutual

def Stmt.Orderly (here : Surroundings) : Stmt → Prop
  | .expression value | .print value => value.Orderly here
  | .var name initializer => ∀ e ∈ initializer, e.Orderly (here.declare name)
  | .block body => Stmt.AllOrderly (here.enter []) body
  | .branch condition consequent none => condition.Orderly here ∧ consequent.Orderly here
  | .branch condition consequent (some alternative) =>
    condition.Orderly here ∧ consequent.Orderly here ∧ alternative.Orderly (here.after consequent)
  | .loop condition body =>
    condition.Orderly here ∧ body.Orderly here ∧ body.RoundOrderly here
  | .function declaration => declaration.Orderly (here.define declaration.name)
  | .ret _ value => ∀ e ∈ value, e.Orderly here
  | .classDecl name methods => FunctionDecl.AllOrderly (here.define name).inMethods methods

def Stmt.AllOrderly (here : Surroundings) : List Stmt → Prop
  | [] => True
  | s :: rest => s.Orderly here ∧ Stmt.AllOrderly (here.after s) rest

def FunctionDecl.Orderly (here : Surroundings) : FunctionDecl → Prop
  | ⟨_, parameters, body⟩ => Stmt.AllOrderly (here.inBody parameters) body

def FunctionDecl.AllOrderly (here : Surroundings) : List FunctionDecl → Prop
  | [] => True
  | f :: rest => f.Orderly here ∧ FunctionDecl.AllOrderly here rest

end

/-- What is in order itself has an orderly round. -/
theorem Stmt.roundOrderly (here : Surroundings) (body : Stmt)
    (inOrder : Diagnostic.InOrder (errorsOf (body.findings here))) : body.RoundOrderly here := by
  rw [Stmt.RoundOrderly.eq_def]
  split
  · next body increment =>
    simp only [Stmt.findings, Stmt.allFindings, List.append_nil] at inOrder
    exact ((Finding.inOrder_append _ _).1 inOrder).2.2
  · trivial

/-- The findings report only of these tokens, and they do so in order iff a proposition holds. -/
structure Reports (ts : List Token) (findings : List Finding) (orderly : Prop) : Prop where
  traced : ∀ d ∈ errorsOf findings, ∃ t ∈ ts, ∃ place e, d = .static t.line place e
  ordered : Diagnostic.InOrder (errorsOf findings) ↔ orderly

namespace Reports

variable {ts us all : List Token} {first second findings : List Finding} {p q : Prop}

theorem silent (none : errorsOf findings = []) : Reports ts findings True :=
  ⟨by simp [none], by simp [none]⟩

theorem widen (reports : Reports ts findings p) (more : ts ⊆ us) : Reports us findings p :=
  ⟨fun d member =>
    have ⟨t, inside, found⟩ := reports.traced d member
    ⟨t, more inside, found⟩, reports.ordered⟩

theorem congr (reports : Reports ts findings p) (same : p ↔ q) : Reports ts findings q :=
  ⟨reports.traced, reports.ordered.trans same⟩

theorem append_silent (reports : Reports ts first p) (none : errorsOf second = []) :
    Reports ts (first ++ second) p := by
  have same : errorsOf (first ++ second) = errorsOf first := by
    rw [errorsOf_append, none, List.append_nil]
  exact ⟨same ▸ reports.traced, same ▸ reports.ordered⟩

theorem refused {t : Token} (member : t ∈ ts) (e : StaticError) : Reports ts [.refused t e] True := by
  have only : errorsOf [.refused t e] = [.static t.line t.place e] := rfl
  constructor
  · intro d found
    rw [only] at found
    exact ⟨t, member, _, _, List.mem_singleton.1 found⟩
  · rw [only]
    exact iff_true_intro (List.pairwise_singleton _ _)

theorem either {condition : Prop} [Decidable condition] (yes : Reports ts first p)
    (no : Reports ts second p) : Reports ts (if condition then first else second) p := by
  split
  · exact yes
  · exact no

theorem traced_append (left : Reports ts first p) (right : Reports us second q) (fore : ts ⊆ all)
    (aft : us ⊆ all) :
    ∀ d ∈ errorsOf (first ++ second), ∃ t ∈ all, ∃ place e, d = .static t.line place e := by
  rw [errorsOf_append]
  exact List.forall_mem_append.2 ⟨(left.widen fore).traced, (right.widen aft).traced⟩

/-- What stands behind is resolved behind. -/
theorem append (left : Reports ts first p) (right : Reports us second q) (ascending : Ascending all)
    (both : (ts ++ us).Sublist all) : Reports all (first ++ second) (p ∧ q) := by
  refine ⟨left.traced_append right ?_ ?_, ?_⟩
  · exact fun t member => both.subset (List.mem_append_left us member)
  · exact fun t member => both.subset (List.mem_append_right ts member)
  · have apart : Finding.NoLater first second := by
      intro d here e there k told l told'
      obtain ⟨t, inside, _, _, rfl⟩ := left.traced d here
      obtain ⟨u, inside', _, _, rfl⟩ := right.traced e there
      cases told
      cases told'
      exact (List.pairwise_append.1 (ascending.sublist both)).2.2 t inside u inside'
    rw [Finding.inOrder_append, left.ordered, right.ordered]
    exact and_congr_right fun _ => and_iff_left apart

/-- What stands behind is resolved first. -/
theorem turned (left : Reports ts first p) (right : Reports us second q) (fore : ts ⊆ all)
    (aft : us ⊆ all) : Reports all (first ++ second) (p ∧ q ∧ Finding.NoLater first second) := by
  refine ⟨left.traced_append right fore aft, ?_⟩
  rw [Finding.inOrder_append, left.ordered, right.ordered]

/-- Behind a token that is reported itself, or not. -/
theorem behind {t : Token} (front : Reports [t] first True) (rest : Reports ts second p)
    (ascending : Ascending all) (both : (t :: ts).Sublist all) : Reports all (first ++ second) p :=
  (front.append rest ascending both).congr (and_iff_right trivial)

theorem redeclaring {name : Token} (here : Surroundings) (member : name ∈ ts) :
    Reports ts (here.redeclaring name) True := .either (.refused member _) (.silent rfl)

theorem returning {keyword : Token} (here : Surroundings) (member : keyword ∈ ts) :
    Reports ts (here.returning keyword) True := .either (.silent rfl) (.refused member _)

theorem redeclaringEach (here : Surroundings) (ascending : Ascending ts) :
    Reports ts (here.redeclaringEach ts) True := by
  induction ts generalizing here with
  | nil => exact .silent rfl
  | cons name rest ih =>
    rw [Surroundings.redeclaringEach]
    exact .behind (.redeclaring here (by simp)) (ih _ ascending.of_cons) ascending (.refl _)

section

variable {here : Surroundings} {condition : Expr} {body : Stmt}

/-- A loop whose round was read in the order of its tokens. -/
theorem loop (test : Reports ts (condition.findings here) (condition.Orderly here))
    (round : Reports us (body.findings here) (body.Orderly here ∧ body.RoundOrderly here))
    (ascending : Ascending all) (both : (ts ++ us).Sublist all) :
    Reports all ((Stmt.loop condition body).findings here) ((Stmt.loop condition body).Orderly here) := by
  rw [Stmt.findings, Stmt.Orderly]
  exact test.append round ascending both

theorem round (reports : Reports ts (body.findings here) (body.Orderly here)) :
    Reports ts (body.findings here) (body.Orderly here ∧ body.RoundOrderly here) :=
  reports.congr (iff_self_and.2 fun orderly => body.roundOrderly here (reports.ordered.2 orderly))

/-- The increment, which stands before the body, is put behind it. -/
theorem lowered {increment : Expr}
    (step : ∀ here, Reports ts (increment.findings here) (increment.Orderly here))
    (repeats : ∀ here, Reports us (body.findings here) (body.Orderly here)) (fore : ts ⊆ all)
    (aft : us ⊆ all) (here : Surroundings) :
    Reports all ((Stmt.block [body, .expression increment]).findings here)
      ((Stmt.block [body, .expression increment]).Orderly here ∧
        (Stmt.block [body, .expression increment]).RoundOrderly here) := by
  have turned := (repeats (here.enter [])).turned (step ((here.enter []).after body)) aft fore
  simp only [Stmt.findings, Stmt.allFindings, List.append_nil, Stmt.Orderly, Stmt.AllOrderly, and_true,
    Stmt.RoundOrderly]
  exact turned.congr and_assoc.symm

end

end Reports

namespace Grammar

section

variable (here : Surroundings)

theorem Precedence.node_orderly (p : Precedence) (left : Expr) (operator : Token) (right : Expr) :
    (p.node left operator right).Orderly here ↔ left.Orderly here ∧ right.Orderly here := by
  cases p <;> rw [Precedence.node, Expr.Orderly]

mutual

theorem Phrase.reports : Phrase r ts n m e → Ascending ts → Reports ts (e.findings here) (e.Orderly here)
  | .assign _ _ value, ascending => by
    have inner := value.reports (ascending.sublist (by grind))
    rw [Expr.findings, Expr.Orderly]
    exact (inner.append_silent rfl).widen (by grind)
  | .set object _ _ _ value, ascending => by
    have fore := object.reports (ascending.sublist (by grind))
    have aft := value.reports (ascending.sublist (by grind))
    rw [Expr.findings, Expr.Orderly]
    exact aft.turned fore (by grind) (by grind)
  | .operation part, ascending => part.reports ascending
  | .binary operand operations, ascending =>
    operations.reports ascending (operand.reports (ascending.sublist (by grind)))
  | .unary _ operand, ascending => by
    have inner := operand.reports (ascending.sublist (by grind))
    rw [Expr.findings, Expr.Orderly]
    exact inner.widen (by grind)
  | .plain part, ascending => part.reports ascending
  | .call callee suffixes, ascending =>
    suffixes.reports ascending (callee.reports (ascending.sublist (by grind)))
  | .constant _, _ | .literal _, _ => by
    rw [Expr.findings, Expr.Orderly]
    exact .silent rfl
  | .this _, _ => by
    rw [Expr.findings, Expr.Orderly]
    exact .either (.silent rfl) (.refused (by simp) _)
  | .read _, _ => by
    rw [Expr.findings, Expr.Orderly]
    exact (Reports.either (.refused (by simp) _) (.silent rfl)).append_silent rfl
  | .group _ part _, ascending => by
    have inner := part.reports (ascending.sublist (by grind))
    rw [Expr.findings, Expr.Orderly]
    exact inner.widen (by grind)

/-- Behind the tokens of what stands to the left. -/
theorem Operations.reports : Operations p left us n m e → Ascending (os ++ us) →
    Reports os (left.findings here) (left.Orderly here) →
      Reports (os ++ us) (e.findings here) (e.Orderly here)
  | .done, _, before => before.widen (by simp)
  | @Operations.more ts _ _ _ p _ operator us _ _ _ operand operations, ascending, before => by
    have right := operand.reports (ascending.sublist (by grind))
    have node : Reports (os ++ operator :: ts) _ _ :=
      before.append right (ascending.sublist (by grind)) (by grind)
    rw [← p.node_findings, ← p.node_orderly here] at node
    have whole := operations.reports (by simpa using ascending) node
    simpa using whole

theorem Suffixes.reports : Suffixes callee us n m e → Ascending (os ++ us) →
    Reports os (callee.findings here) (callee.Orderly here) →
      Reports (os ++ us) (e.findings here) (e.Orderly here)
  | .done, _, before => before.widen (by simp)
  | @Suffixes.call ts _ _ list callee closing us _ _ opening _ given _ _ suffixes, ascending, before => by
    have arguments := given.reports (ascending.sublist (by grind))
    have call : Reports (os ++ opening :: (ts ++ [closing]))
        ((Expr.call callee closing list).findings here) ((Expr.call callee closing list).Orderly here) := by
      rw [Expr.findings, Expr.Orderly]
      exact before.append arguments (ascending.sublist (by grind)) (by grind)
    have whole := suffixes.reports (by simpa using ascending) call
    simpa using whole
  | @Suffixes.get callee name us _ _ _ dot _ _ suffixes, ascending, before => by
    have get : Reports (os ++ [dot, name]) ((Expr.get callee name).findings here)
        ((Expr.get callee name).Orderly here) := by
      rw [Expr.findings, Expr.Orderly]
      exact before.widen (by simp)
    have whole := suffixes.reports (by simpa using ascending) get
    simpa using whole

theorem Arguments.reports : Arguments ts n m list → Ascending ts →
    Reports ts (Expr.allFindings here list) (Expr.AllOrderly here list)
  | .none, _ => by
    rw [Expr.allFindings, Expr.AllOrderly]
    exact .silent rfl
  | .some list, ascending => list.reports ascending

theorem ArgumentList.reports : ArgumentList ts n m list → Ascending ts →
    Reports ts (Expr.allFindings here list) (Expr.AllOrderly here list)
  | .one e, ascending => by
    have only := e.reports ascending
    rw [Expr.allFindings, Expr.AllOrderly]
    exact (only.append_silent rfl).congr (and_iff_left trivial).symm
  | .more e _ list, ascending => by
    have first := e.reports (ascending.sublist (by grind))
    have rest := list.reports (ascending.sublist (by grind))
    rw [Expr.allFindings, Expr.AllOrderly]
    exact first.append rest ascending (by grind)

end

end

theorem ParameterList.sublist : ParameterList ts list → list.Sublist ts
  | .one _ => .refl _
  | .more _ _ rest => (rest.sublist.cons _).cons_cons _

theorem Parameters.sublist : Parameters ts list → list.Sublist ts
  | .none => .refl _
  | .some list => list.sublist

theorem Parameters.reports (parameters : Parameters ts list) (ascending : Ascending ts)
    (here : Surroundings) : Reports ts (here.redeclaringEach list) True :=
  have names := Reports.redeclaringEach here (ascending.sublist parameters.sublist)
  names.widen parameters.sublist.subset

theorem Variable.reports : Variable ts n m s → Ascending ts → (here : Surroundings) →
    Reports ts (s.findings here) (s.Orderly here)
  | .bare _ _, _, here => by
    rw [Stmt.findings, Stmt.Orderly]
    exact (Reports.redeclaring here (by simp)).congr (by simp)
  | .initialized _ _ phrase _, ascending, here => by
    rw [Stmt.findings, Stmt.Orderly]
    refine Reports.congr (.behind (.redeclaring here (List.mem_singleton_self _))
      (phrase.reports (here.declare _) ?_) ascending ?_) ?_
    · exact ascending.sublist (by grind)
    · grind
    · simp

theorem Initializer.reports : Initializer ts n m (some s) → Ascending ts → (here : Surroundings) →
    Reports ts (s.findings here) (s.Orderly here)
  | .variable _ read, ascending, here => (read.reports (ascending.sublist (by grind)) here).widen (by grind)
  | .expression phrase _, ascending, here => by
    have value := phrase.reports here (ascending.sublist (by grind))
    rw [Stmt.findings, Stmt.Orderly]
    exact value.widen (by grind)

theorem whileForm_reports {initializer : Option Stmt} {condition increment : Option Expr}
    (begins : Initializer is n k initializer) (checks : OptionalPhrase cs k l condition)
    (steps : OptionalPhrase us l j increment)
    (repeats : ∀ here, Reports bs (body.findings here) (body.Orderly here))
    (ascending : Ascending all) (inside : (is ++ (cs ++ (us ++ bs))).Sublist all) (here : Surroundings) :
    Reports all ((whileForm condition body initializer increment).findings here)
      ((whileForm condition body initializer increment).Orderly here) := by
  have all := ascending.sublist inside
  have check (here : Surroundings) :
      Reports cs ((condition.getD (.constant (.boolean true))).findings here)
        ((condition.getD (.constant (.boolean true))).Orderly here) := by
    cases checks with
    | none =>
      rw [Option.getD_none, Expr.Orderly]
      exact .silent rfl
    | some phrase => exact phrase.reports here (all.sublist (by grind))
  have loop (here : Surroundings) : Reports (cs ++ (us ++ bs))
      ((whileForm condition body none increment).findings here)
      ((whileForm condition body none increment).Orderly here) := by
    have behind := all.sublist (List.sublist_append_right is _)
    cases steps with
    | none => exact (check here).loop (repeats here).round behind (.refl _)
    | some phrase =>
      have step (here : Surroundings) := phrase.reports here (behind.sublist (by grind))
      have round := Reports.lowered step repeats (List.subset_append_left us bs)
        (List.subset_append_right us bs) here
      exact (check here).loop round behind (.refl _)
  cases initializer with
  | none => exact (loop here).widen (((List.sublist_append_right is _).trans inside).subset)
  | some s =>
    have start := begins.reports (all.sublist (List.sublist_append_left is _)) (here.enter [])
    have both := start.append (loop ((here.enter []).after s)) ascending inside
    cases increment <;>
      simpa only [whileForm, Stmt.findings, Stmt.allFindings, Stmt.Orderly, Stmt.AllOrderly,
        List.append_nil, and_true] using both

theorem Function.starts (read : Function elses ts n m f) : ts = f.name :: ts.tail := by
  cases read
  rfl

mutual

theorem Statement.reports : Statement elses isOpen ts n m s → Ascending ts → (here : Surroundings) →
    Reports ts (s.findings here) (s.Orderly here)
  | .expression phrase _, ascending, here => by
    have value := phrase.reports here (ascending.sublist (by grind))
    rw [Stmt.findings, Stmt.Orderly]
    exact value.widen (by grind)
  | .print _ phrase _, ascending, here => by
    have value := phrase.reports here (ascending.sublist (by grind))
    rw [Stmt.findings, Stmt.Orderly]
    exact value.widen (by grind)
  | .ret _ given _, ascending, here => by
    cases given with
    | none =>
      rw [Stmt.findings, Stmt.Orderly]
      exact (Reports.returning here (by simp)).congr (by simp)
    | some phrase =>
      have value := phrase.reports here (ascending.sublist (by grind))
      rw [Stmt.findings, Stmt.Orderly]
      refine Reports.congr (.behind (.returning here (List.mem_singleton_self _)) value ascending ?_) ?_
      · grind
      · simp
  | .block _ body _, ascending, here => by
    have inside := body.reports (ascending.sublist (by grind)) (here.enter [])
    rw [Stmt.findings, Stmt.Orderly]
    exact inside.widen (by grind)
  | .loop _ _ phrase _ part, ascending, here => by
    have condition := phrase.reports here (ascending.sublist (by grind))
    have body := part.reports (ascending.sublist (by grind)) here
    exact condition.loop body.round ascending (by grind)
  | .forLoop _ _ begins checks _ steps _ part, ascending, here => by
    have body := part.reports (ascending.sublist (by grind))
    refine whileForm_reports begins checks steps body ascending ?_ here
    -- All but four tokens are in the parts.
    exact .cons _ (.cons _ (.append_left (.append_left (.cons _ (.append_left (.cons _ (.refl _)) _)) _) _))
  | .branch _ _ phrase _ part, ascending, here => by
    have condition := phrase.reports here (ascending.sublist (by grind))
    have consequent := part.reports (ascending.sublist (by grind)) here
    rw [Stmt.findings, Stmt.Orderly]
    exact condition.append consequent ascending (by grind)
  | .branchElse _ _ phrase _ part _ _ other, ascending, here => by
    have condition := phrase.reports here (ascending.sublist (by grind))
    have consequent := part.reports (ascending.sublist (by grind)) here
    rw [Stmt.findings, Stmt.Orderly, List.append_assoc]
    refine condition.append (consequent.append (other.reports ?_ _) ?_ (.refl _)) ascending ?_
    · exact ascending.sublist (by grind)
    · exact ascending.sublist (by grind)
    · exact .cons _ (.cons _ (.append_left (.cons _ (.append_left (.cons _ (.refl _)) _)) _))

theorem Declaration.reports : Declaration elses ts n m s → Ascending ts → (here : Surroundings) →
    Reports ts (s.findings here) (s.Orderly here)
  | .classDecl _ _ _ list _, ascending, here => by
    rw [Stmt.findings, Stmt.Orderly]
    refine .behind (.redeclaring here (List.mem_singleton_self _)) (list.reports ?_ _) ascending ?_
    · exact ascending.sublist (by grind)
    · grind
  | .function _ read, ascending, here => by
    have named := read.starts
    rw [Stmt.findings, Stmt.Orderly]
    refine .behind (.redeclaring here (List.mem_singleton_self _)) (read.reports ?_ _) ascending ?_
    · exact ascending.of_cons
    · exact named ▸ List.sublist_cons_self _ _
  | .variable _ read, ascending, here =>
    (read.reports (ascending.sublist (by grind)) here).widen (by grind)
  | .statement part, ascending, here => part.reports ascending here

theorem Declarations.reports : Declarations elses ts n m list → Ascending ts → (here : Surroundings) →
    Reports ts (Stmt.allFindings here list) (Stmt.AllOrderly here list)
  | .nil, _, here => by
    rw [Stmt.allFindings, Stmt.AllOrderly]
    exact .silent rfl
  | .cons first rest, ascending, here => by
    have front := first.reports (ascending.sublist (by grind)) here
    rw [Stmt.allFindings, Stmt.AllOrderly]
    refine front.append (rest.reports ?_ _) ascending (.refl _)
    exact ascending.sublist (by grind)

/-- A function's name is declared outside of it. -/
theorem Function.reports : Function elses ts n m f → Ascending ts → (here : Surroundings) →
    Reports ts.tail (f.findings here) (f.Orderly here)
  | .intro _ _ given _ _ _ body _, ascending, here => by
    have parameters := given.reports (ascending.sublist (by grind)) (here.inBody [])
    rw [FunctionDecl.findings, FunctionDecl.Orderly]
    refine Reports.congr (parameters.append (body.reports ?_ _) ascending.of_cons ?_) (and_iff_right trivial)
    · exact ascending.sublist (by grind)
    · exact .cons _ (.append_left (.cons _ (.cons _ (List.sublist_append_left _ _))) _)

theorem Functions.reports : Functions elses ts n m list → Ascending ts → (here : Surroundings) →
    Reports ts (FunctionDecl.allFindings here list) (FunctionDecl.AllOrderly here list)
  | .nil, _, here => by
    rw [FunctionDecl.allFindings, FunctionDecl.AllOrderly]
    exact .silent rfl
  | .cons first rest, ascending, here => by
    have front := (first.reports (ascending.sublist (by grind)) here).widen (List.tail_sublist _).subset
    have back := rest.reports (ascending.sublist (by grind)) here
    rw [FunctionDecl.allFindings, FunctionDecl.AllOrderly]
    exact front.append back ascending (.refl _)

end

end Grammar

/-- What resolution reports of an accepted source. -/
theorem compile_reports {source : String} {program : List Stmt} {first next : Occurrence}
    (compiled : compile source first = (.ok program, next)) :
    Reports (scan source).1 (resolve program) (Stmt.AllOrderly .topLevel program) := by
  obtain ⟨ts, derived, among⟩ := compile_reads compiled
  have reports := derived.reports ((scan_ascending source).1.sublist among.sublist) .topLevel
  exact reports.widen among.subset

end Lox
