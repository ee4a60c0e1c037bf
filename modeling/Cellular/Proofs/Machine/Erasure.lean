import Cellular.Proofs.Machine.Soundness
import Cellular.Proofs.Source.Statements

/-!
# What a running rule sees of its notes

A rule that runs looks names up in the scopes of its notes.  It sees no place, and no type but that
of a declared variable.

* `Expr.bare_of_check` and `Program.allBare_of_check`: a check leaves bare shapes as they are.
* `Expr.seeing` and `Stmt.seeing` give a tree without notes the scopes that it needs to run.
* `Expr.eval_seeing` and `Stmt.exec_seeing`: a well-typed tree runs as its bare shape does in its
  scope.

Two programs of one bare shape are checked with different places, and may be told apart by their
notes in other ways too.  To compare their runs, both are compared with a third tree, which is made
from the bare shape and the scope that the program starts in, and whose notes hold nothing but
scopes.  It has no types and could not have been accepted, but a run does not ask for them.  Since
errors carry places, the theorems forget the errors and say that one run succeeds exactly if the
other does, with the same result.
-/

namespace Cellular

/-! ## Bare shapes

The bare shape of a tree is the tree with all its notes replaced by nothing.
-/

lemma Expr.map_id {α : Type} (e : Expr α) : e.map id = e := by
  induction e <;> simp_all only [Expr.map, id]

mutual

lemma Stmt.map_id {α : Type} : ∀ s : Stmt α, s.map id = s
  | .block n body => by simp only [Stmt.map, Stmt.mapAll_id, id]
  | .declare n type name init => by
      have hinit : init.map (Expr.map id) = init := by
        rw [show Expr.map (id : α → α) = id from funext Expr.map_id, Option.map_id, id]
      rw [Stmt.map, hinit, id]
  | .assign n m target op value => by simp only [Stmt.map, Expr.map_id, id]
  | .when n test body => by simp only [Stmt.map, Expr.map_id, Stmt.map_id, id]
  | .branch n test yes no => by simp only [Stmt.map, Expr.map_id, Stmt.map_id, id]

lemma Stmt.mapAll_id {α : Type} : ∀ ss : List (Stmt α), Stmt.mapAll id ss = ss
  | [] => by simp only [Stmt.mapAll]
  | s :: ss => by simp only [Stmt.mapAll, Stmt.map_id, Stmt.mapAll_id]

end

/-- A check leaves the bare shape of an expression as it is. -/
lemma Expr.bare_of_check {scope : Scope} {e : Expr Position} {e' : Expr Note}
    (h : e.check scope = .ok e') : e'.bare = e.bare := by
  rw [← Expr.map_pos_of_check h, Expr.bare, Expr.bare, Expr.map_map]

/-- A check leaves the bare shape of a program as it is. -/
lemma Program.allBare_of_check {root : Scope} {p : Program Position} {p' : Program Note}
    (h : p.check root = .ok p') : Stmt.allBare p'.body = Stmt.allBare p.body := by
  rw [← (Program.wellTyped_of_check h).2, Stmt.allBare, Stmt.allBare, Stmt.mapAll_mapAll]

/-! ## Trees that see names

The scope of a statement is found by walking through the statements before it, as the check does.
In an expression all nodes have the scope of the statement.
-/

/-- An expression that sees the names of `scope`. -/
def Expr.seeing (scope : Scope) (e : Expr Unit) : Expr Note := e.map fun _ => { scope }

mutual

/-- A statement that sees the names of `scope`. -/
def Stmt.seeing (scope : Scope) : Stmt Unit → Stmt Note
  | .block _ body => .block { scope } (Stmt.allSeeing scope body)
  | .declare _ type name init =>
    .declare { scope, type := type.type?.getD .invalid } type name (init.map (Expr.seeing scope))
  | .assign _ _ target op value => .assign { scope } { scope } target op (value.seeing scope)
  | .when _ test body => .when { scope } (test.seeing scope) (Stmt.seeing scope body)
  | .branch _ test yes no =>
    .branch { scope } (test.seeing scope) (Stmt.seeing scope yes) (Stmt.seeing scope no)

/-- Statements in turn, each of which sees the names behind the ones before it. -/
def Stmt.allSeeing (scope : Scope) : List (Stmt Unit) → List (Stmt Note)
  | [] => []
  | s :: ss => Stmt.seeing scope s :: Stmt.allSeeing ((Stmt.seeing scope s).after scope) ss

end

/-! ## Expressions

Operators evaluate their operands from the left and may stop after the first.  With errors forgotten
a whole evaluation is an equation between options, one for each form of expression, and the
induction rewrites with the equations of the parts.
-/

variable {l : Layout} {scope : Scope}

/-- Looking a name up needs the scope alone. -/
lemma Frame.access_seeing {f : Frame} {n m : Note} (h : n.scope = m.scope) (path : Path) :
    (f.access l n path).toOption = (f.access l m path).toOption := by
  have hread : ∀ (r : Record) (field : String),
      (l.read n.pos r field).toOption = (l.read m.pos r field).toOption := by
    intro r field
    rw [Layout.read, Layout.read]
    cases l.field? field <;> rfl
  rw [Frame.access, Frame.access, h]
  cases m.scope.find? path.root with
  | none => rfl
  | some found =>
      obtain ⟨b, slot⟩ := found
      rcases path.rest with _ | ⟨field, _ | ⟨second, more⟩⟩
      · dsimp only
        split_ifs
        · rfl
        · cases f.counts.lookup path.root <;> rfl
      · dsimp only
        split_ifs
        · exact hread f.cell field
        · exact hread f.prev field
        · rfl
      · rfl

/-- The value of an operator, errors aside. -/
lemma Expr.toOption_eval_binary (f : Frame) (n : Note) (op : BinaryOp) (left right : Expr Note) :
    ((Expr.binary n op left right).eval l f).toOption =
      (left.eval l f).toOption.bind fun a =>
        if op = .and && !a.isTrue then some (.bool false)
        else if op = .or && a.isTrue then some (.bool true)
        else (right.eval l f).toOption.bind fun b =>
          if op = .and || op = .or then some (.bool b.isTrue) else op.apply? a b := by
  rw [Expr.eval, toOption_bind]
  congr 1
  funext a
  split_ifs
  · rfl
  · rfl
  · rw [toOption_bind]
    rfl
  · rw [toOption_bind]
    congr 1
    funext b
    cases op.apply? a b <;> rfl

/-- The value of a sign, errors aside. -/
lemma Expr.toOption_eval_unary (f : Frame) (n : Note) (op : UnaryOp) (operand : Expr Note) :
    ((Expr.unary n op operand).eval l f).toOption =
      (operand.eval l f).toOption.bind op.apply? := by
  rw [Expr.eval, toOption_bind]
  congr 1
  funext a
  cases op.apply? a <;> rfl

/-- **A well-typed expression has the value of its bare shape**, if one of them has a value. -/
theorem Expr.eval_seeing {f : Frame} {e : Expr Note} (h : e.WellTyped scope) :
    (e.eval l f).toOption = ((e.bare.seeing scope).eval l f).toOption := by
  induction e with
  | ternary n test yes no ihtest ihyes ihno =>
      obtain ⟨-, htest, hyes, hno, -⟩ := h
      simp only [Expr.bare, Expr.seeing, Expr.map, Expr.eval, toOption_bind,
        apply_ite Except.toOption] at ihtest ihyes ihno ⊢
      simp only [ihtest htest, ihyes hyes, ihno hno]
  | binary n op left right ihleft ihright =>
      obtain ⟨-, hleft, hright, -⟩ := h
      rw [toOption_eval_binary, ihleft hleft, ihright hright]
      exact (toOption_eval_binary f _ op _ _).symm
  | unary n op operand ih =>
      obtain ⟨-, hoperand, -⟩ := h
      rw [toOption_eval_unary, ih hoperand]
      exact (toOption_eval_unary f _ op _).symm
  | cast n target operand ih =>
      obtain ⟨-, hoperand, -⟩ := h
      simp only [Expr.bare, Expr.seeing, Expr.map, Expr.eval, toOption_bind] at ih ⊢
      simp only [ih hoperand]
  | int n v text => rfl
  | float n v text => rfl
  | bool n v => rfl
  | access n path => exact Frame.access_seeing h.1 path

/-! ## Statements

A statement is compared with its bare shape in the same frame.  A well-typed statement and its bare
shape leave the same scope behind them, and so the statements that follow meet the same names.
-/

lemma AssignOp.eval_seeing {f : Frame} {n m : Note} (n' m' : Note) (h : m.scope = m'.scope)
    (op : AssignOp) (target : Path) (v : Value) :
    (op.eval l f n m target v).toOption = (op.eval l f n' m' target v).toOption := by
  rw [AssignOp.eval, AssignOp.eval]
  cases op.binaryOp? with
  | none => rfl
  | some b =>
      dsimp only
      rw [toOption_bind, toOption_bind, Frame.access_seeing h]
      congr 1
      funext old
      cases b.apply? old v <;> rfl

lemma Frame.assign_seeing {f : Frame} {n m : Note} (h : n.scope = m.scope) (target : Path)
    (v : Value) : (f.assign l n target v).toOption = (f.assign l m target v).toOption := by
  have hwrite : ∀ field : String,
      (f.write l n.pos field v).toOption = (f.write l m.pos field v).toOption := by
    intro field
    rw [Frame.write, Frame.write]
    cases l.field? field <;> rfl
  rw [Frame.assign, Frame.assign, h]
  rcases target.rest with _ | ⟨field, _ | ⟨second, more⟩⟩
  · cases m.scope.find? target.root with
    | none => rfl
    | some found =>
        dsimp only
        split_ifs <;> rfl
  · dsimp only
    split_ifs
    · exact hwrite field
    · rfl
  · rfl

/-- A statement and its bare shape declare the same. -/
lemma Stmt.after_seeing {start : Nat} {s : Stmt Note} (h : s.WellTyped scope start) :
    (s.bare.seeing scope).after scope = s.after scope := by
  cases s with
  | declare n type name init =>
      rw [Stmt.WellTyped] at h
      rw [Stmt.bare, Stmt.map, Stmt.seeing, Stmt.after, Stmt.after, h.2.1]
      rfl
  | block | assign | when | branch =>
      rw [Stmt.bare, Stmt.map, Stmt.seeing, Stmt.after, Stmt.after] <;> simp

mutual

/-- **A well-typed statement does what its bare shape does**, if one of them does anything. -/
theorem Stmt.exec_seeing {start : Nat} :
    ∀ {scope : Scope} {s : Stmt Note} {f : Frame}, s.WellTyped scope start →
      (Stmt.exec l s f).toOption = (Stmt.exec l (s.bare.seeing scope) f).toOption
  | scope, .block n body, f, h => by
      rw [Stmt.WellTyped] at h
      rw [Stmt.bare, Stmt.map, Stmt.seeing, Stmt.exec, Stmt.exec]
      exact Stmt.execAll_seeing h.2
  | scope, .declare n type name init, f, h => by
      rw [Stmt.WellTyped] at h
      obtain ⟨hscope, htype, -, -, hinit⟩ := h
      rw [Stmt.bare, Stmt.map, Stmt.seeing, Stmt.exec, Stmt.exec, toOption_bind, toOption_bind,
        htype, hscope]
      congr 1
      cases init with
      | none => rfl
      | some e => exact Expr.eval_seeing (hinit e rfl).1
  | scope, .assign n m target op value, f, h => by
      rw [Stmt.WellTyped] at h
      obtain ⟨hscope, htarget, -, -, hvalue, -⟩ := h
      rw [Stmt.bare, Stmt.map, Stmt.seeing, Stmt.exec, Stmt.exec]
      simp only [toOption_bind, Expr.eval_seeing hvalue]
      congr 1
      funext v
      rw [AssignOp.eval_seeing { scope } { scope } htarget op target v]
      congr 1
      funext w
      exact Frame.assign_seeing hscope target w
  | scope, .when n test body, f, h => by
      rw [Stmt.WellTyped] at h
      obtain ⟨-, htest, -, hbody⟩ := h
      rw [Stmt.bare, Stmt.map, Stmt.seeing, Stmt.exec, Stmt.exec, toOption_bind, toOption_bind]
      simp only [Expr.eval_seeing htest, apply_ite Except.toOption, Stmt.exec_seeing hbody]
      rfl
  | scope, .branch n test yes no, f, h => by
      rw [Stmt.WellTyped] at h
      obtain ⟨-, htest, -, hyes, hno⟩ := h
      rw [Stmt.bare, Stmt.map, Stmt.seeing, Stmt.exec, Stmt.exec, toOption_bind, toOption_bind]
      simp only [Expr.eval_seeing htest, apply_ite Except.toOption, Stmt.exec_seeing hyes,
        Stmt.exec_seeing hno]
      rfl

/-- Well-typed statements in turn do what their bare shapes do. -/
theorem Stmt.execAll_seeing {start : Nat} :
    ∀ {scope : Scope} {ss : List (Stmt Note)} {f : Frame}, Stmt.AllWellTyped scope start ss →
      (Stmt.execAll l ss f).toOption
        = (Stmt.execAll l (Stmt.allSeeing scope (Stmt.allBare ss)) f).toOption
  | scope, [], f, h => rfl
  | scope, s :: ss, f, h => by
      rw [Stmt.AllWellTyped] at h
      have hafter : ((s.map fun _ => ()).seeing scope).after scope = s.after scope :=
        Stmt.after_seeing h.1
      rw [Stmt.allBare, Stmt.mapAll, Stmt.allSeeing, Stmt.execAll, Stmt.execAll, toOption_bind,
        toOption_bind, Stmt.exec_seeing h.1, hafter]
      simp only [Stmt.execAll_seeing h.2]
      rfl

end

end Cellular
