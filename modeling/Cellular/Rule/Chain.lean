import Cellular.Rule.Expr

/-!
# Operator chains

A rule text gives operands with binary operators between them; the ranks of the operators decide
how they nest.

* `Chain` is a tree of binary operators over operands that are taken as they are.
* `Chain.climb` hangs operators and their operands onto a chain from the right.
* `Chain.toExpr` is the expression that a chain stands for.

The grammar of rules does not rank operators: it reads a whole chain of operands as a list.  The
ranks come in here, and only here, so that the grammar stays small and a diagnostic of a missing
operand does not depend on the operators around it.  Operators of one rank nest to the left.
-/

namespace Cellular

/-- Operands under binary operators.  An operand is a leaf, whatever it is itself. -/
inductive Chain (α : Type) where
  | operand (e : Expr α)
  | node (note : α) (op : BinaryOp) (left right : Chain α)
deriving Repr, Inhabited

/-- One operator of a chain with the operand behind it. -/
structure Link (α : Type) where
  note : α
  op : BinaryOp
  operand : Expr α
deriving Repr, Inhabited

namespace Chain

/-- What climbing leaves of `n` operators: a chain, and those that bind too loosely for it. -/
abbrev Climbed (α : Type) (n : Nat) := { r : Chain α × List (Link α) // r.2.length ≤ n }

/-- Hangs operators onto the chain `c` as long as they bind at least as tightly as `least`.  The right
side of an operator takes all operators behind it that bind more tightly; the next one then stands
above both. -/
def climb {α : Type} (least : Nat) (c : Chain α) (links : List (Link α)) :
    Climbed α links.length :=
  match links with
  | [] => ⟨(c, []), Nat.le_refl _⟩
  | link :: more =>
    if link.op.precedence < least then ⟨(c, link :: more), Nat.le_refl _⟩
    else
      let ⟨(right, rest), hrest⟩ := climb (link.op.precedence + 1) (.operand link.operand) more
      let ⟨whole, hwhole⟩ := climb least (.node link.note link.op c right) rest
      ⟨whole, Nat.le_succ_of_le (Nat.le_trans hwhole hrest)⟩
termination_by links.length
decreasing_by
  · exact Nat.lt_succ_self _
  · exact Nat.lt_succ_of_le hrest

/-- The expression that a chain stands for. -/
def toExpr {α : Type} : Chain α → Expr α
  | .operand e => e
  | .node n op l r => .binary n op l.toExpr r.toExpr

end Chain

end Cellular
