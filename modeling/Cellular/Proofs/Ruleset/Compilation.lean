import Cellular.Proofs.Compile
import Cellular.Proofs.Ruleset.Program

/-!
# Rulesets compile

A ruleset whose totals and ages are in range is written as a configuration that compiles, however
long its lists are; any other ruleset is refused.

* `Expr.Accepted` and `Stmt.Accepted` say that a tree checks and has shader code, wherever it was
  read; there is one lemma for every form of them that the program of a ruleset uses.
* `Ruleset.rule_accepted`: the program of a ruleset is accepted.
* `Ruleset.exists_compile` compiles it; `Ruleset.expand_compile_iff` says which rulesets compile, and
  what becomes of the others.

The program of a ruleset is known as a tree, up to its places.  That it is accepted is shown without
running the check on a text: a tree is accepted if it is wherever it was read, and this property
goes from the parts of a tree to the whole.  The conditions over lists of totals are chains as long
as the lists, so that this is an induction and no computation could replace it.

The kernel is the same for all rulesets and is compiled once and for all.
-/

namespace Cellular

open Shader

/-! ## Accepted trees

The two demands on a tree, to pass the check and to have shader code, are proved together.
-/

/-- Wherever the expression is read, it checks with the type `t` and then has shader code. -/
def Expr.Accepted (scope : Scope) (ks : KernelSet) (e : Expr Unit) (t : Ty) : Prop :=
  ∀ read : Expr Position, read.bare = e → ∃ checked, read.check scope = .ok checked ∧
    checked.type = t ∧ ∃ term, checked.toTerm ks = .ok term

/-- Wherever the statement is read, it checks, declares nothing for the statements behind it, and
then has shader code. -/
def Stmt.Accepted (scope : Scope) (ks : KernelSet) (s : Stmt Unit) : Prop :=
  ∀ (read : Stmt Position) (start : Nat), read.bare = s →
    ∃ checked, Stmt.check scope start read = .ok (checked, scope) ∧
      ∃ code, Stmt.toCode ks checked = .ok code

/-- The same for statements in turn. -/
def Stmt.AllAccepted (scope : Scope) (ks : KernelSet) (ss : List (Stmt Unit)) : Prop :=
  ∀ (read : List (Stmt Position)) (start : Nat), Stmt.allBare read = ss →
    ∃ checked, Stmt.checkAll scope start read = .ok checked ∧
      ∃ codes, Stmt.toCodes ks checked = .ok codes

section Forms

variable {scope : Scope} {ks : KernelSet} {e e' : Expr Unit} {s s' : Stmt Unit} {t u v : Ty}

namespace Expr.Accepted

lemma int (v : Int32) (text : String) : Accepted scope ks (.int () v text) .int := by
  intro read hread
  cases read <;> simp only [Expr.bare, Expr.map, reduceCtorEq] at hread
  case int pos w text => exact ⟨_, rfl, rfl, _, rfl⟩

lemma bool (v : Bool) : Accepted scope ks (.bool () v) .bool := by
  intro read hread
  cases read <;> simp only [Expr.bare, Expr.map, reduceCtorEq] at hread
  case bool pos w => exact ⟨_, rfl, rfl, _, rfl⟩

/-- A name is accepted if it is found and has shader code where it is not a whole cell. -/
lemma access {path : Path} (hcheck : ∀ pos, path.check pos scope = .ok t)
    (hcode : ∀ pos, ∃ term, path.toTerm ks ⟨pos, scope, t⟩ = .ok term) :
    Accepted scope ks (.access () path) t := by
  intro read hread
  cases read <;> simp only [Expr.bare, Expr.map, reduceCtorEq] at hread
  case access pos found =>
    obtain ⟨-, rfl⟩ := Expr.access.inj hread
    refine ⟨.access ⟨pos, scope, t⟩ found, ?_, rfl, hcode pos⟩
    rw [Expr.check, hcheck pos]
    rfl

lemma unary {op : UnaryOp} (hop : op.appliesTo t = true) (h : Accepted scope ks e t) :
    Accepted scope ks (.unary () op e) t := by
  intro read hread
  cases read <;> simp only [Expr.bare, Expr.map, reduceCtorEq] at hread
  case unary pos op' operand =>
    obtain ⟨-, rfl, hoperand⟩ := Expr.unary.inj hread
    obtain ⟨checked, hcheck, rfl, term, hterm⟩ := h operand hoperand
    refine ⟨.unary ⟨pos, scope, checked.type⟩ op' checked, ?_, rfl, .paren (.unary (.rule op') term), ?_⟩
    · rw [Expr.check, hcheck, ok_bind, if_pos hop]
      rfl
    · rw [Expr.toTerm, hterm]
      rfl

lemma binary {op : BinaryOp} (hop : op.result? t u = some v) (h : Accepted scope ks e t)
    (h' : Accepted scope ks e' u) : Accepted scope ks (.binary () op e e') v := by
  intro read hread
  cases read <;> simp only [Expr.bare, Expr.map, reduceCtorEq] at hread
  case binary pos op' left right =>
    obtain ⟨-, rfl, hleft, hright⟩ := Expr.binary.inj hread
    obtain ⟨l, hl, rfl, lterm, hlterm⟩ := h left hleft
    obtain ⟨r, hr, rfl, rterm, hrterm⟩ := h' right hright
    refine ⟨.binary ⟨pos, scope, v⟩ op' l r, ?_, rfl, .paren (.op op' lterm rterm), ?_⟩
    · rw [Expr.check, hl, ok_bind, hr, ok_bind]
      simp only [hop]
      rfl
    · rw [Expr.toTerm, hlterm, ok_bind, hrterm]
      rfl

end Expr.Accepted

namespace Stmt

lemma AllAccepted.nil : AllAccepted scope ks [] := by
  intro read start hread
  cases read with
  | nil => exact ⟨[], rfl, [], rfl⟩
  | cons r read => simp [allBare, mapAll] at hread

lemma AllAccepted.cons {ss : List (Stmt Unit)} (h : Accepted scope ks s)
    (hs : AllAccepted scope ks ss) : AllAccepted scope ks (s :: ss) := by
  intro read start hread
  cases read with
  | nil => simp [allBare, mapAll] at hread
  | cons r read =>
      obtain ⟨hr, hmore⟩ := List.cons.inj hread
      obtain ⟨checked, hcheck, code, hcode⟩ := h r start hr
      obtain ⟨more, hall, codes, hcodes⟩ := hs read start hmore
      refine ⟨checked :: more, ?_, code :: codes, ?_⟩
      · rw [Stmt.checkAll, hcheck, ok_bind]
        simp only [hall]
        rfl
      · rw [Stmt.toCodes, hcode, ok_bind, hcodes]
        rfl

namespace Accepted

lemma block {ss : List (Stmt Unit)} (h : AllAccepted scope ks ss) :
    Accepted scope ks (.block () ss) := by
  intro read start hread
  cases read <;> simp only [Stmt.bare, Stmt.map, reduceCtorEq] at hread
  case block pos body =>
    obtain ⟨checked, hcheck, codes, hcodes⟩ := h body scope.length (Stmt.block.inj hread).2
    refine ⟨.block ⟨pos, scope, .invalid⟩ checked, ?_, .block codes, ?_⟩
    · rw [Stmt.check, hcheck]
      rfl
    · rw [Stmt.toCode, hcodes]
      rfl

lemma when (htest : Expr.Accepted scope ks e .bool) (h : Accepted scope ks s) :
    Accepted scope ks (.when () e s) := by
  intro read start hread
  cases read <;> simp only [Stmt.bare, Stmt.map, reduceCtorEq] at hread
  case when pos test body =>
    obtain ⟨-, htest', hbody⟩ := Stmt.when.inj hread
    obtain ⟨te, hte, htype, term, hterm⟩ := htest test htest'
    obtain ⟨checked, hcheck, code, hcode⟩ := h body scope.length hbody
    refine ⟨.when ⟨pos, scope, .invalid⟩ te checked, ?_, .when term code.branchBody, ?_⟩
    · rw [Stmt.check, hte, ok_bind, htype]
      simp only [Ty.kind, ne_eq, not_true_eq_false, if_false, hcheck]
      rfl
    · rw [Stmt.toCode, hterm, ok_bind, hcode]
      rfl

lemma branch (htest : Expr.Accepted scope ks e .bool) (h : Accepted scope ks s)
    (h' : Accepted scope ks s') : Accepted scope ks (.branch () e s s') := by
  intro read start hread
  cases read <;> simp only [Stmt.bare, Stmt.map, reduceCtorEq] at hread
  case branch pos test yes no =>
    obtain ⟨-, htest', hyes, hno⟩ := Stmt.branch.inj hread
    obtain ⟨te, hte, htype, term, hterm⟩ := htest test htest'
    obtain ⟨y, hy, ycode, hycode⟩ := h yes scope.length hyes
    obtain ⟨n, hn, ncode, hncode⟩ := h' no scope.length hno
    refine ⟨.branch ⟨pos, scope, .invalid⟩ te y n, ?_,
      .branch term ycode.branchBody ncode.branchBody, ?_⟩
    · rw [Stmt.check, hte, ok_bind, htype]
      simp only [Ty.kind, ne_eq, not_true_eq_false, if_false, hy, hn, ok_bind]
      rfl
    · rw [Stmt.toCode, hterm, ok_bind, hycode, ok_bind, hncode]
      rfl

/-- A store of a value of the type of its target is accepted, also where an operator combines both
first. -/
lemma assign {target : Path} {op : AssignOp} (hname : ∀ pos, target.check pos scope = .ok t)
    (htarget : ∀ pos, target.checkTarget pos scope = .ok ())
    (hop : ∀ pos, op.check pos t u = .ok t) (hself : t.equal t = true)
    (hcode : ∀ pos term, ∃ code, assignCode pos target op term = .ok code)
    (h : Expr.Accepted scope ks e u) : Accepted scope ks (.assign () () target op e) := by
  intro read start hread
  cases read <;> simp only [Stmt.bare, Stmt.map, reduceCtorEq] at hread
  case assign pos targetPos target' op' value =>
    obtain ⟨-, -, rfl, rfl, hvalue⟩ := Stmt.assign.inj hread
    obtain ⟨checked, hcheck, rfl, term, hterm⟩ := h value hvalue
    obtain ⟨code, hcode⟩ := hcode pos term
    refine ⟨.assign ⟨pos, scope, .invalid⟩ ⟨targetPos, scope, t⟩ target' op' checked, ?_, code, ?_⟩
    · rw [Stmt.check, hname, ok_bind, hcheck, ok_bind, htarget, ok_bind, hop, ok_bind, if_pos hself]
      rfl
    · rw [Stmt.toCode, hterm, ok_bind, hcode]

end Accepted

end Stmt

end Forms

namespace Ruleset

/-! ## The program

The parts of the program in the order of their size.
-/

section Rule

variable {ks : KernelSet}

lemma accepted_alive : Expr.Accepted scope ks (.access () alive) .bool :=
  .access (fun _ => rfl) fun _ => ⟨_, rfl⟩

lemma accepted_numeral (n : Nat) : Expr.Accepted scope ks (numeral n) .int := .int _ _

lemma accepted_isYounger (n : Nat) : Expr.Accepted scope ks (isYounger n).toExpr .bool :=
  .binary rfl (.access (fun _ => rfl) fun _ => ⟨_, rfl⟩) (accepted_numeral n)

/-- The name of the kernel has shader code where the kernel is one of those that are counted. -/
lemma accepted_isTotal (hks : (ks.find? neighbours.name).isSome = true) (n : Int) :
    Expr.Accepted scope ks (isTotal n).toExpr .bool := by
  refine .binary rfl (.access (t := .int) (fun _ => rfl) fun pos => ?_) (accepted_numeral _)
  refine ⟨.name (countLocal neighbours.name), ?_⟩
  simp only [Path.toTerm]
  rw [if_neg (by decide)]
  exact if_pos hks

lemma accepted_isAnyOf (hks : (ks.find? neighbours.name).isSome = true) (totals : List Int) :
    Expr.Accepted scope ks (isAnyOf totals).toExpr .bool := by
  have hor : ∀ (more : List Int) (c : Chain Unit), Expr.Accepted scope ks c.toExpr .bool →
      Expr.Accepted scope ks
        (more.foldl (fun c n => .node () .or c (isTotal n)) c).toExpr .bool := by
    intro more
    induction more with
    | nil => exact fun c hc => hc
    | cons n more ih => exact fun c hc => ih _ (.binary rfl hc (accepted_isTotal hks n))
  cases totals with
  | nil => exact .bool false
  | cons n more => exact hor more _ (accepted_isTotal hks n)

lemma accepted_survives (hks : (ks.find? neighbours.name).isSome = true) (r : Ruleset) :
    Expr.Accepted scope ks r.survives.toExpr .bool := by
  rw [survives]
  split_ifs
  · exact .binary rfl (accepted_isAnyOf hks _) (accepted_isYounger _)
  · exact accepted_isAnyOf hks _

lemma accepted_grow : Stmt.Accepted scope ks grow :=
  .assign (t := .int) (fun _ => rfl) (fun _ => rfl) (fun _ => rfl) rfl (fun _ _ => ⟨_, rfl⟩)
    (accepted_numeral 1)

lemma accepted_rejuvenate : Stmt.Accepted scope ks rejuvenate :=
  .assign (t := .int) (fun _ => rfl) (fun _ => rfl) (fun _ => rfl) rfl (fun _ _ => ⟨_, rfl⟩)
    (accepted_numeral 0)

lemma accepted_become (v : Bool) : Stmt.Accepted scope ks (become v) :=
  .assign (t := .bool) (fun _ => rfl) (fun _ => rfl) (fun _ => rfl) rfl (fun _ _ => ⟨_, rfl⟩)
    (.bool v)

lemma accepted_death (r : Ruleset) : Stmt.AllAccepted scope ks r.death := by
  have hdies : Stmt.AllAccepted scope ks [become false, rejuvenate] :=
    .cons (accepted_become false) (.cons accepted_rejuvenate .nil)
  rw [death]
  split_ifs
  · exact .cons (.branch (accepted_isYounger _) (.block (.cons accepted_grow .nil))
      (.block hdies)) .nil
  · exact hdies

/-- **The program of a ruleset is accepted**, whatever the ruleset is. -/
theorem rule_accepted (hks : (ks.find? neighbours.name).isSome = true) (r : Ruleset) :
    Stmt.AllAccepted scope ks r.rule := by
  have hgrow : Stmt.Accepted scope ks (.when () (isYounger maxAge).toExpr (.block () [grow])) :=
    .when (accepted_isYounger _) (.block (.cons accepted_grow .nil))
  have hlive : Stmt.Accepted scope ks (.branch () (.unary () .not r.survives.toExpr)
      (.block () r.death) (.when () (isYounger maxAge).toExpr (.block () [grow]))) :=
    .branch (.unary rfl (accepted_survives hks r)) (.block (accepted_death r)) hgrow
  have hborn : Stmt.Accepted scope ks
      (.when () (isAnyOf r.birth).toExpr (.block () [become true])) :=
    .when (accepted_isAnyOf hks _) (.block (.cons (accepted_become true) .nil))
  exact .cons (.branch accepted_alive (.block (.cons hlive .nil))
    (.block (.cons accepted_rejuvenate (.cons hborn .nil)))) .nil

end Rule

/-! ## The compilation

All stages succeed: the fields fit into a record, the kernel compiles, the text is read as the tree,
and the tree is accepted.
-/

set_option maxRecDepth 100000 in
/-- The kernel compiles over the cells of a ruleset, with the name that the program sees, and has a
counting function. -/
lemma exists_kernels : ∃ ks, KernelSet.compile [neighbours] layout.cellType = .ok ks ∧
    ks.kernels.map (fun k => (k.name, k.result)) = [(neighbours.name, .int)] ∧
    ∃ functions, countFunctions ks ks.kernels = .ok functions := by
  have hall : ((KernelSet.compile [neighbours] layout.cellType).toOption.map fun ks =>
      (ks.kernels.map (fun k => (k.name, k.result)),
        (countFunctions ks ks.kernels).toOption.isSome)) = some ([(neighbours.name, .int)], true) := by
    decide +kernel
  obtain ⟨ks, hks, hfound⟩ := exists_ok_of_toOption hall
  obtain ⟨hnames, hcounts⟩ := Prod.mk.inj hfound
  obtain ⟨functions, hfunctions⟩ := Option.isSome_iff_exists.mp hcounts
  exact ⟨ks, hks, hnames, functions, toOption_eq_some.mp hfunctions⟩

/-- Over the kernel alone, a program sees the names of a ruleset. -/
lemma rootScope_eq_scope {ks : KernelSet}
    (h : ks.kernels.map (fun k => (k.name, k.result)) = [(neighbours.name, .int)]) :
    rootScope layout ks = scope ∧ (ks.find? neighbours.name).isSome = true := by
  obtain ⟨k, hk, hbinding⟩ := List.map_eq_singleton_iff.mp h
  obtain ⟨hname, hresult⟩ := Prod.mk.inj hbinding
  constructor
  · rw [rootScope_eq, hk, List.map_singleton, Kernel.binding, hname, hresult]
    rfl
  · rw [KernelSet.find?, hk, List.find?_cons_of_pos (by simp [hname])]
    rfl

/-- **A ruleset in range compiles.** -/
theorem InRange.exists_compile {r : Ruleset} (h : r.InRange) :
    ∃ config c, r.expand = .ok config ∧ config.compile = .ok c := by
  obtain ⟨ks, hks, hnames, counts, hcounts⟩ := exists_kernels
  obtain ⟨hscope, hfind⟩ := rootScope_eq_scope hnames
  obtain ⟨p, hp, hbare⟩ := exists_parse h
  obtain ⟨body, hbody, rule, hrule⟩ := rule_accepted hfind r p.body scope.length hbare
  have hexpand : r.expand = .ok {
      state := [{ name := "alive", type := "flag" }, { name := "age", type := "number", length := 8 }]
      neighbourCounts := [neighbours]
      program := r.program } := by
    rw [expand, validate_eq_ok.mpr h]
    rfl
  have hshader : ∃ shader, Shader.generate layout ks { pos := p.pos, body } = .ok shader := by
    rw [Shader.generate, hcounts, ok_bind, hrule]
    exact ⟨_, rfl⟩
  obtain ⟨shader, hshader⟩ := hshader
  refine ⟨_, ⟨shader, layout, ks, { pos := p.pos, body }⟩, hexpand, ?_⟩
  refine Config.compile_eq_ok_iff.mpr ⟨⟨_, rfl, pack_layout⟩, hks, ⟨p, hp, ?_⟩, hshader⟩
  rw [Program.check, hscope, hbody]
  rfl

/-! ## The refusal

A ruleset is checked part by part, and the first part that is out of range is named by its path.
-/

/-- What a ruleset is refused with: the path of a part that is out of range, and the number that
is. -/
inductive Refusal (r : Ruleset) : ConfigError → Prop where
  | survive {n : Int} (mem : n ∈ r.survive) (out : ¬ (0 ≤ n ∧ n ≤ 8)) :
    Refusal r ⟨"ruleset.survive", .neighbourTotal n⟩
  | birth {n : Int} (mem : n ∈ r.birth) (out : ¬ (0 ≤ n ∧ n ≤ 8)) :
    Refusal r ⟨"ruleset.birth", .neighbourTotal n⟩
  | naturalDeath (out : ¬ (0 ≤ r.naturalDeath ∧ r.naturalDeath ≤ maxAge)) :
    Refusal r ⟨"ruleset.natural_death", .deathAge r.naturalDeath maxAge⟩
  | starve (out : ¬ (0 ≤ r.starve ∧ r.starve ≤ maxAge)) :
    Refusal r ⟨"ruleset.starve", .starvationDelay r.starve maxAge⟩

lemma checkTotals_eq_error {path : String} {totals : List Int} {e : ConfigError}
    (h : checkTotals path totals = .error e) :
    ∃ n ∈ totals, ¬ (0 ≤ n ∧ n ≤ 8) ∧ e = ⟨path, .neighbourTotal n⟩ := by
  induction totals with
  | nil => cases h
  | cons n more ih =>
      rw [checkTotals] at h
      split_ifs at h with hout
      · simp only [Bool.or_eq_true, decide_eq_true_eq] at hout
        exact ⟨n, List.mem_cons_self, by omega, (Except.error.inj h).symm⟩
      · obtain ⟨m, hm, hm'⟩ := ih h
        exact ⟨m, List.mem_cons_of_mem _ hm, hm'⟩

lemma refusal_of_validate {r : Ruleset} {e : ConfigError} (h : r.validate = .error e) :
    r.Refusal e := by
  rw [validate] at h
  cases hsurvive : checkTotals "ruleset.survive" r.survive with
  | error e' =>
      rw [hsurvive] at h
      obtain ⟨n, hn, hout, rfl⟩ := checkTotals_eq_error hsurvive
      obtain rfl := Except.error.inj h
      exact .survive hn hout
  | ok =>
      rw [hsurvive, ok_bind] at h
      cases hbirth : checkTotals "ruleset.birth" r.birth with
      | error e' =>
          rw [hbirth] at h
          obtain ⟨n, hn, hout, rfl⟩ := checkTotals_eq_error hbirth
          obtain rfl := Except.error.inj h
          exact .birth hn hout
      | ok =>
          rw [hbirth, ok_bind] at h
          split_ifs at h with hdeath hstarve
          · simp only [Bool.or_eq_true, decide_eq_true_eq] at hdeath
            obtain rfl := Except.error.inj h
            exact .naturalDeath (by omega)
          · simp only [Bool.or_eq_true, decide_eq_true_eq] at hstarve
            obtain rfl := Except.error.inj h
            exact .starve (by omega)

/-- A ruleset out of range is refused. -/
lemma exists_refusal {r : Ruleset} (h : ¬ r.InRange) : ∃ e, r.expand = .error e ∧ r.Refusal e := by
  cases hvalid : r.validate with
  | ok => exact absurd (validate_eq_ok.mp hvalid) h
  | error e =>
      refine ⟨e, ?_, refusal_of_validate hvalid⟩
      rw [expand, hvalid]
      rfl

/-- **The rulesets in range are those that compile.**  Any other one is refused with the path of a
part that is out of range. -/
theorem expand_compile_iff (r : Ruleset) :
    (r.InRange ↔ ∃ config c, r.expand = .ok config ∧ config.compile = .ok c) ∧
      (¬ r.InRange ↔ ∃ e, r.expand = .error e ∧ r.Refusal e) := by
  refine ⟨⟨InRange.exists_compile, ?_⟩, ⟨exists_refusal, ?_⟩⟩
  · rintro ⟨config, c, hexpand, -⟩
    by_contra h
    obtain ⟨e, he, -⟩ := exists_refusal h
    cases he.symm.trans hexpand
  · rintro ⟨e, he, -⟩ h
    obtain ⟨config, c, hexpand, -⟩ := h.exists_compile
    cases he.symm.trans hexpand

end Ruleset

end Cellular
