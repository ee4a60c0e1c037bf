import Cellular.Proofs.Machine.Erasure
import Cellular.Proofs.Machine.Run
import Cellular.Proofs.Rule.Acceptance

/-!
# Updates written out

An assignment that combines the old value of its target with a new one is short for a plain one.  A
program in which some of these updates are written out is as well-typed as before, and does the same.

* `Stmt.Unfolds` relates a statement to one in which any of its updates are written out; places play
  no role.  `Stmt.unfold` writes them all out.
* `Stmt.Unfolds.typed_iff`: the typing rules do not tell the two apart.
* `Stmt.Unfolds.exec_seeing`: neither does a run.
* `Program.Unfolds.check_step` is the statement for programs and for the steps of compiled rules.

The relation lets every update choose for itself, so that the theorem covers a program in which a
single update is written out as well as one in which all are.  It is an inductive relation between
bare trees, since an update and its expansion cannot have the same places.  Both results, on types
and on runs, are inductions on it, in which only the case of an update says anything: an operator of
an update asks of the target and the value what the same operator asks of its operands, and it is
applied to the same two values.  They are found in opposite orders, which could change the error but
not the success.
-/

namespace Cellular

/-! ## Writing updates out

Only arithmetic operators form updates.  The condition stands in the relation, and trees that are
read from a text satisfy it.
-/

mutual

/-- `s.Unfolds s'`: some of the updates in `s`, at any depth, are written out in `s'`. -/
inductive Stmt.Unfolds : Stmt Unit → Stmt Unit → Prop where
  /-- An update is a plain assignment of what the operator makes of the target and the value. -/
  | update {op : BinaryOp} (hop : op ∈ AssignOp.arithmetic) (target : Path) (value : Expr Unit) :
      Unfolds (.assign () () target (.update op) value)
        (.assign () () target .set (.binary () op (.access () target) value))
  | assign (target : Path) (op : AssignOp) (value : Expr Unit) :
      Unfolds (.assign () () target op value) (.assign () () target op value)
  | declare (type : TypeName) (name : String) (init : Option (Expr Unit)) :
      Unfolds (.declare () type name init) (.declare () type name init)
  | block {body body' : List (Stmt Unit)} (h : Stmt.AllUnfold body body') :
      Unfolds (.block () body) (.block () body')
  | when (test : Expr Unit) {body body' : Stmt Unit} (h : Stmt.Unfolds body body') :
      Unfolds (.when () test body) (.when () test body')
  | branch (test : Expr Unit) {yes yes' no no' : Stmt Unit} (hyes : Stmt.Unfolds yes yes')
      (hno : Stmt.Unfolds no no') : Unfolds (.branch () test yes no) (.branch () test yes' no')

/-- The same for statements in turn. -/
inductive Stmt.AllUnfold : List (Stmt Unit) → List (Stmt Unit) → Prop where
  | nil : AllUnfold [] []
  | cons {s s' : Stmt Unit} {ss ss' : List (Stmt Unit)} (h : Stmt.Unfolds s s')
      (hs : Stmt.AllUnfold ss ss') : AllUnfold (s :: ss) (s' :: ss')

end

/-- Some of the updates of a program are written out in another one. -/
def Program.Unfolds (p p' : Program Position) : Prop :=
  Stmt.AllUnfold (Stmt.allBare p.body) (Stmt.allBare p'.body)

mutual

/-- Writes out all updates of a statement. -/
def Stmt.unfold {α : Type} : Stmt α → Stmt α
  | .block n body => .block n (Stmt.unfoldAll body)
  | .declare n type name init => .declare n type name init
  | .assign n m target (.update op) value =>
    .assign n m target .set (.binary n op (.access m target) value)
  | .assign n m target op value => .assign n m target op value
  | .when n test body => .when n test (Stmt.unfold body)
  | .branch n test yes no => .branch n test (Stmt.unfold yes) (Stmt.unfold no)

/-- Writes out all updates of statements. -/
def Stmt.unfoldAll {α : Type} : List (Stmt α) → List (Stmt α)
  | [] => []
  | s :: ss => Stmt.unfold s :: Stmt.unfoldAll ss

end

/-- Writes out all updates of a program. -/
def Program.unfold {α : Type} (p : Program α) : Program α :=
  { p with body := Stmt.unfoldAll p.body }

mutual

/-- What is read from a text has updates that can be written out. -/
theorem Stmt.unfolds_unfold : ∀ {s : Stmt Position}, s.Spelled → s.bare.Unfolds s.unfold.bare
  | .block _ _, h => .block (Stmt.allUnfold_unfoldAll h)
  | .declare _ type name _, _ => .declare type name _
  | .assign _ _ target .set _, _ => .assign target .set _
  | .assign _ _ target (.update _) _, h => .update h.1 target _
  | .assign _ _ target (.unknown symbol) _, _ => .assign target (.unknown symbol) _
  | .when _ _ _, h => .when _ (Stmt.unfolds_unfold h.2)
  | .branch _ _ _ _, h => .branch _ (Stmt.unfolds_unfold h.2.1) (Stmt.unfolds_unfold h.2.2)

/-- The same for statements in turn. -/
theorem Stmt.allUnfold_unfoldAll :
    ∀ {ss : List (Stmt Position)}, Stmt.AllSpelled ss →
      Stmt.AllUnfold (Stmt.allBare ss) (Stmt.allBare (Stmt.unfoldAll ss))
  | [], _ => .nil
  | _ :: _, h => .cons (Stmt.unfolds_unfold h.1) (Stmt.allUnfold_unfoldAll h.2)

end

lemma Program.unfolds_unfold {src : String} {p : Program Position} (h : Program.parse src = .ok p) :
    p.Unfolds p.unfold :=
  Stmt.allUnfold_unfoldAll (Program.spelled_of_parse h)

/-! ## Typing

The typing rules without notes are equivalences, so the comparison of a whole statement is a
comparison of its premises.
-/

/-- Writing an update out changes nothing that is declared. -/
lemma Stmt.Unfolds.next_eq {s s' : Stmt Unit} (h : s.Unfolds s') (scope : Scope) :
    s'.next scope = s.next scope := by
  cases h <;> rfl

/-- An update is well-typed exactly if it is written out. -/
lemma Stmt.typed_update_iff {scope : Scope} {start : Nat} {op : BinaryOp} {target : Path}
    {value : Expr Unit} :
    (Stmt.assign () () target (.update op) value).Typed scope start
      ↔ (Stmt.assign () () target .set (.binary () op (.access () target) value)).Typed scope
        start := by
  simp only [Stmt.Typed, Expr.HasType, AssignOp.Typed, AssignOp.binaryOp?]
  constructor
  · rintro ⟨t, _, ht, hassign, hvalue, rfl, hop⟩
    exact ⟨_, _, ht, hassign, ⟨_, ht, hvalue, hop⟩, rfl⟩
  · rintro ⟨t, _, ht, hassign, ⟨u, hu, hvalue, hop⟩, rfl⟩
    -- the target has one type, on its own and as an operand
    obtain rfl := ht.unique hu
    exact ⟨_, _, ht, hassign, hvalue, rfl, hop⟩

mutual

/-- **Written-out updates are as well-typed as updates.** -/
theorem Stmt.Unfolds.typed_iff {scope : Scope} {start : Nat} :
    ∀ {s s' : Stmt Unit}, s.Unfolds s' → (s.Typed scope start ↔ s'.Typed scope start)
  | _, _, .update _ _ _ => Stmt.typed_update_iff
  | _, _, .assign _ _ _ => Iff.rfl
  | _, _, .declare _ _ _ => Iff.rfl
  | _, _, .block h => by
      rw [Stmt.Typed, Stmt.Typed]
      exact h.allTyped_iff
  | _, _, .when _ h => by
      rw [Stmt.Typed, Stmt.Typed, h.typed_iff]
  | _, _, .branch _ hyes hno => by
      rw [Stmt.Typed, Stmt.Typed, hyes.typed_iff, hno.typed_iff]

/-- The same for statements in turn, each of which leaves both sides in one scope. -/
theorem Stmt.AllUnfold.allTyped_iff {scope : Scope} {start : Nat} :
    ∀ {ss ss' : List (Stmt Unit)}, Stmt.AllUnfold ss ss' →
      (Stmt.AllTyped scope start ss ↔ Stmt.AllTyped scope start ss')
  | _, _, .nil => Iff.rfl
  | _, _, .cons h hs => by
      rw [Stmt.AllTyped, Stmt.AllTyped, h.typed_iff, h.next_eq, hs.allTyped_iff]

end

/-! ## Running

The expansion reads its target as an expression.  In a frame this is the same look-up that the
update makes.
-/

section Running

variable {l : Layout}

/-- What an update stores, errors aside: the target is read behind the value. -/
lemma AssignOp.toOption_eval_update (f : Frame) (n m : Note) (op : BinaryOp) (target : Path)
    (v : Value) :
    ((AssignOp.update op).eval l f n m target v).toOption
      = (f.access l m target).toOption.bind fun old => op.apply? old v := by
  simp only [AssignOp.eval, AssignOp.binaryOp?, toOption_bind]
  congr 1
  funext old
  cases op.apply? old v <;> rfl

/-- An update does what it does written out. -/
lemma Stmt.exec_update {op : BinaryOp} (hop : op ∈ AssignOp.arithmetic) (scope : Scope)
    (target : Path) (value : Expr Unit) (f : Frame) :
    (Stmt.exec l ((Stmt.assign () () target (.update op) value).seeing scope) f).toOption
      = (Stmt.exec l ((Stmt.assign () () target .set
          (.binary () op (.access () target) value)).seeing scope) f).toOption := by
  obtain ⟨hor, hand⟩ := AssignOp.ne_logic_of_arithmetic hop
  set note : Note := { scope }
  set v := ((value.seeing scope).eval l f).toOption
  set old := (f.access l note target).toOption
  have hshort : (Stmt.exec l ((Stmt.assign () () target (.update op) value).seeing scope) f).toOption
      = (v.bind fun b => old.bind fun a => op.apply? a b).bind fun w =>
          (f.assign l note target w).toOption := by
    simp only [Stmt.seeing, Stmt.exec, toOption_bind, AssignOp.toOption_eval_update,
      Option.bind_assoc, v, old, note]
  have hlong : (Stmt.exec l ((Stmt.assign () () target .set
      (.binary () op (.access () target) value)).seeing scope) f).toOption
      = (old.bind fun a => v.bind fun b => op.apply? a b).bind fun w =>
          (f.assign l note target w).toOption := by
    rw [Stmt.seeing, Expr.seeing, Expr.map, Stmt.exec, toOption_bind, Expr.toOption_eval_binary]
    simp [hor, hand, Expr.eval, Expr.map, AssignOp.eval, AssignOp.binaryOp?, v, old, note,
      Expr.seeing]
  rw [hshort, hlong, Option.bind_comm]

/-- Behind both forms the same names are seen. -/
lemma Stmt.Unfolds.after_seeing_eq {s s' : Stmt Unit} (h : s.Unfolds s') (scope : Scope) :
    (s'.seeing scope).after scope = (s.seeing scope).after scope := by
  cases h <;> rfl

mutual

/-- **Written-out updates do what the updates do**, if one of them does anything. -/
theorem Stmt.Unfolds.exec_seeing :
    ∀ {s s' : Stmt Unit} {scope : Scope} {f : Frame}, s.Unfolds s' →
      (Stmt.exec l (s.seeing scope) f).toOption = (Stmt.exec l (s'.seeing scope) f).toOption
  | _, _, scope, f, .update hop target value => Stmt.exec_update hop scope target value f
  | _, _, _, _, .assign _ _ _ => rfl
  | _, _, _, _, .declare _ _ _ => rfl
  | _, _, scope, f, .block h => by
      simp only [Stmt.seeing, Stmt.exec]
      exact h.execAll_allSeeing
  | _, _, scope, f, .when test h => by
      simp only [Stmt.seeing, Stmt.exec, toOption_bind, apply_ite Except.toOption, h.exec_seeing]
  | _, _, scope, f, .branch test hyes hno => by
      simp only [Stmt.seeing, Stmt.exec, toOption_bind, apply_ite Except.toOption,
        hyes.exec_seeing, hno.exec_seeing]

/-- The same for statements in turn. -/
theorem Stmt.AllUnfold.execAll_allSeeing :
    ∀ {ss ss' : List (Stmt Unit)} {scope : Scope} {f : Frame}, Stmt.AllUnfold ss ss' →
      (Stmt.execAll l (Stmt.allSeeing scope ss) f).toOption
        = (Stmt.execAll l (Stmt.allSeeing scope ss') f).toOption
  | _, _, _, _, .nil => rfl
  | _, _, scope, f, .cons h hs => by
      simp only [Stmt.allSeeing, Stmt.execAll, toOption_bind, h.exec_seeing, h.after_seeing_eq,
        hs.execAll_allSeeing]

end

/-! ## Steps

Runs of bare trees are compared above; a run of a checked program is that of its bare shape.  For a
compiled rule the first run succeeds, and what the comparison gives for the second is then its
result.
-/

/-- The counts around a cell do not depend on the program. -/
lemma Machine.counts_program (m : Machine) (q : Program Note) (b : Board) (x y : Int) :
    { m with program := q }.counts b x y = m.counts b x y := by
  have htotal : ∀ (k : Kernel) (visits : List Visit) (sum : Float32),
      { m with program := q }.total b k sum visits = m.total b k sum visits := by
    intro k visits
    induction visits with
    | nil => exact fun sum => rfl
    | cons v visits ih =>
        intro sum
        rw [Machine.total, Machine.total]
        exact congrArg _ (funext fun w => ih (sum + w))
  have hall : ∀ kernels : List Kernel,
      { m with program := q }.countAll b x y kernels = m.countAll b x y kernels := by
    intro kernels
    induction kernels with
    | nil => rfl
    | cons k kernels ih => simp only [Machine.countAll, Machine.count, htotal, ih]
  exact hall m.kernels.kernels

/-- Programs that do the same make the same steps, errors aside. -/
lemma Machine.toOption_step_eq {m : Machine} {q : Program Note}
    (h : ∀ f, (Stmt.execAll m.layout q.body f).toOption
      = (Stmt.execAll m.layout m.program.body f).toOption) (b : Board) :
    ({ m with program := q }.step b).toOption = (m.step b).toOption := by
  have hcell : ∀ x y : Int,
      ({ m with program := q }.stepCell b x y).toOption = (m.stepCell b x y).toOption := by
    intro x y
    simp only [Machine.stepCell, Machine.counts_program, toOption_bind]
    congr 1
    funext counts
    cases b.get? x y with
    | none => rfl
    | some prev => simp only [toOption_bind, toOption_mapError, h]
  have hcells : ∀ numbers : List Nat,
      ({ m with program := q }.stepCells b numbers).toOption
        = (m.stepCells b numbers).toOption := by
    intro numbers
    induction numbers with
    | nil => rfl
    | cons i numbers ih =>
        simp only [Machine.stepCells]
        cases Grid.place? i b.width with
        | none => rfl
        | some place => simp only [toOption_bind, hcell, ih]
  simp only [Machine.step, toOption_bind, hcells]

end Running

/-- **An update is short for its expansion.**  The check accepts a program exactly if it accepts the
program with some of its updates written out.  Where a configuration compiles, both make the same
step on every board with a cell for each of its places. -/
theorem Program.Unfolds.check_step {p p' : Program Position} (h : p.Unfolds p') :
    (∀ root : Scope, (∃ q, p.check root = .ok q) ↔ ∃ q', p'.check root = .ok q') ∧
    ∀ (config : Config) (c : Compiled), config.compile = .ok c →
      Program.parse config.program = .ok p →
      ∃ q', p'.check (rootScope c.layout c.kernels) = .ok q' ∧
        ∀ b : Board, b.cells.size = b.width * b.height →
          ∃ next, c.machine.step b = .ok next ∧
            { c.machine with program := q' }.step b = .ok next := by
  have haccepted : ∀ root : Scope, (∃ q, p.check root = .ok q) ↔ ∃ q', p'.check root = .ok q' := by
    intro root
    rw [Program.exists_check_iff, Program.exists_check_iff, h.allTyped_iff]
  refine ⟨haccepted, ?_⟩
  intro config c hcompile hparse
  obtain ⟨-, -, ⟨parsed, hparsed, hchecked⟩, -⟩ := Config.compile_eq_ok_iff.mp hcompile
  obtain rfl := Except.ok.inj (hparse.symm.trans hparsed)
  obtain ⟨q', hq'⟩ := (haccepted _).mp ⟨_, hchecked⟩
  refine ⟨q', hq', ?_⟩
  intro b hb
  have hc := Config.wellFormed_of_compile hcompile
  obtain ⟨next, hnext, -⟩ := Machine.step_ok hc hb
  -- both programs run as their bare shapes do, and these do the same
  have hrun : ∀ f, (Stmt.execAll c.layout q'.body f).toOption
      = (Stmt.execAll c.layout c.program.body f).toOption := by
    intro f
    rw [Stmt.execAll_seeing hc.typed, Stmt.execAll_seeing (Program.wellTyped_of_check hq').1,
      Program.allBare_of_check hchecked, Program.allBare_of_check hq']
    exact h.execAll_allSeeing.symm
  exact ⟨next, hnext, ok_of_toOption_eq (Machine.toOption_step_eq hrun b).symm hnext⟩

/-- A rule that updates a variable, and the cell under a condition. -/
def Config.wearing : Config :=
  { state := [⟨"alive", "flag", 0⟩, ⟨"age", "number", 10⟩]
    program := "int n = 7; n %= 4; if (cell.alive) cell.age *= n;" }

/-- The statements of the rule when its updates are written out. -/
def Config.wearingTexts : List String :=
  ["Declaration(int n = 7)", "Assignment(n = (n % 4))",
    "Conditional(if cell.alive then Assignment(cell.age = (cell.age * n)))"]

set_option maxRecDepth 100000 in
lemma Config.wearing_parses : ∃ p, Program.parse Config.wearing.program = .ok p ∧
    p.unfold.body.map Stmt.text = Config.wearingTexts :=
  exists_ok_of_toOption (by decide +kernel)

set_option maxRecDepth 100000 in
lemma Config.wearing_compiles : ∃ c, Config.wearing.compile = .ok c ∧ c.layout.bits = 11 :=
  exists_ok_of_toOption (by decide +kernel)

/-- The rule and its expansion on a board of one live and one dead cell. -/
theorem Program.check_step_wearing :
    ∃ c p q', Config.wearing.compile = .ok c ∧ Program.parse Config.wearing.program = .ok p ∧
      p.unfold.body.map Stmt.text = Config.wearingTexts ∧
      p.unfold.check (rootScope c.layout c.kernels) = .ok q' ∧
      ∃ next, c.machine.step ⟨2, 1, #[⟨7, 0, 0, 0⟩, ⟨6, 0, 0, 0⟩]⟩ = .ok next ∧
        { c.machine with program := q' }.step ⟨2, 1, #[⟨7, 0, 0, 0⟩, ⟨6, 0, 0, 0⟩]⟩ = .ok next := by
  obtain ⟨p, hparse, htexts⟩ := Config.wearing_parses
  obtain ⟨c, hcompile, -⟩ := Config.wearing_compiles
  obtain ⟨q', hq', hstep⟩ :=
    (Program.Unfolds.check_step (Program.unfolds_unfold hparse)).2 _ c hcompile hparse
  exact ⟨c, p, q', hcompile, hparse, htexts, hq', hstep _ (by decide)⟩

end Cellular
