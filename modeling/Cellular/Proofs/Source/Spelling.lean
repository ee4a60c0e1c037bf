import Cellular.Number.Decimal
import Cellular.Rule.Expr
import Mathlib.Tactic.Common

/-!
# Spelling

A rule keeps the text of its float literals beside their values, and its assignments may hold any
operator.  What is read from a text is tamer: the text of a float is a decimal of its value, and an
assignment is plain or combines with arithmetic.

`Expr.Spelled` and `Stmt.Spelled` state this for every node of a tree; notes play no role
(`Expr.spelled_map`, `Stmt.spelled_map`).  The definitions are by recursion on trees, next to those
of the rule language, and not by recursion on texts: a rule that was checked has no text any more,
but it is still spelled.  Theorems about shaders need this where a float is printed and where an
assignment is combined with an operator.
-/

namespace Cellular

open Number (Decimal)

/-- An operator that the grammar admits in assignments. -/
def AssignOp.Spelled : AssignOp → Prop
  | .set => True
  | .update op => op ∈ AssignOp.arithmetic
  | .unknown _ => False

instance : DecidablePred AssignOp.Spelled
  | .set => isTrue trivial
  | .update op => inferInstanceAs (Decidable (op ∈ AssignOp.arithmetic))
  | .unknown _ => isFalse id

/-- Assignments combine with operators that look at both operands. -/
lemma AssignOp.ne_logic_of_arithmetic {op : BinaryOp} (h : op ∈ AssignOp.arithmetic) :
    op ≠ .or ∧ op ≠ .and := by
  constructor <;> rintro rfl <;> simp [AssignOp.arithmetic] at h

/-- Every float is the nearest one to the decimal that it was written as. -/
def Expr.Spelled {α : Type} : Expr α → Prop
  | .ternary _ test yes no => test.Spelled ∧ yes.Spelled ∧ no.Spelled
  | .binary _ _ left right => left.Spelled ∧ right.Spelled
  | .unary _ _ operand => operand.Spelled
  | .cast _ _ operand => operand.Spelled
  | .float _ v text => ∃ d, Decimal.parse? text.toList = some d ∧ v = d.toSingle
  | .int .. | .bool .. | .access .. => True

mutual

/-- A statement of spelled expressions whose assignments have operators of the grammar. -/
def Stmt.Spelled {α : Type} : Stmt α → Prop
  | .block _ body => Stmt.AllSpelled body
  | .declare _ _ _ init => ∀ e, init = some e → e.Spelled
  | .assign _ _ _ op value => op.Spelled ∧ value.Spelled
  | .when _ test body => test.Spelled ∧ Stmt.Spelled body
  | .branch _ test yes no => test.Spelled ∧ Stmt.Spelled yes ∧ Stmt.Spelled no

/-- Statements that are all spelled. -/
def Stmt.AllSpelled {α : Type} : List (Stmt α) → Prop
  | [] => True
  | s :: ss => Stmt.Spelled s ∧ Stmt.AllSpelled ss

end

/-! ## Notes -/

/-- Other notes leave the spelling as it is. -/
lemma Expr.spelled_map {α β : Type} (f : α → β) (e : Expr α) : (e.map f).Spelled ↔ e.Spelled := by
  induction e with
  | ternary n t a b iht iha ihb => simp only [Expr.map, Expr.Spelled, iht, iha, ihb]
  | binary n op l r ihl ihr => simp only [Expr.map, Expr.Spelled, ihl, ihr]
  | unary n op e ih => simp only [Expr.map, Expr.Spelled, ih]
  | cast n target e ih => simp only [Expr.map, Expr.Spelled, ih]
  | int n v text => rfl
  | float n v text => rfl
  | bool n v => rfl
  | access n p => rfl

mutual

/-- Other notes leave the spelling of a statement as it is. -/
theorem Stmt.spelled_map {α β : Type} (f : α → β) :
    ∀ s : Stmt α, (Stmt.map f s).Spelled ↔ s.Spelled
  | .block _ body => by
      simp only [Stmt.map, Stmt.Spelled]
      exact Stmt.allSpelled_mapAll f body
  | .declare _ _ _ none => by simp [Stmt.map, Stmt.Spelled]
  | .declare _ _ _ (some e) => by simp [Stmt.map, Stmt.Spelled, Expr.spelled_map]
  | .assign _ _ _ op value => by simp only [Stmt.map, Stmt.Spelled, Expr.spelled_map]
  | .when _ test body => by
      simp only [Stmt.map, Stmt.Spelled, Expr.spelled_map, Stmt.spelled_map f body]
  | .branch _ test yes no => by
      simp only [Stmt.map, Stmt.Spelled, Expr.spelled_map, Stmt.spelled_map f yes,
        Stmt.spelled_map f no]

/-- Other notes leave the spelling of statements as it is. -/
theorem Stmt.allSpelled_mapAll {α β : Type} (f : α → β) :
    ∀ ss : List (Stmt α), Stmt.AllSpelled (Stmt.mapAll f ss) ↔ Stmt.AllSpelled ss
  | [] => by simp only [Stmt.mapAll, Stmt.AllSpelled]
  | s :: ss => by
      simp only [Stmt.mapAll, Stmt.AllSpelled, Stmt.spelled_map f s, Stmt.allSpelled_mapAll f ss]

end

end Cellular
