import Cellular.Rule.Chain
import Mathlib.Tactic.Common

/-!
# Climbing finds the ranked tree

Operands and the operators between them can nest in many ways.  In a ranked tree every operator
stands above those that bind more tightly than it, and operators of one rank nest to the left.

* `Chain.head` and `Chain.links` take a tree apart into what stands in the text; climbing loses
  nothing of it (`Chain.climb_operands`).
* `Chain.Ranked` are the trees that the ranks of their operators allow.
* `Chain.climb_ranked`: climbing builds a ranked tree and stops only at an operator that binds too
  loosely.
* `Chain.climb_links`: climbing through the links of a ranked tree gives this tree again, so there
  is only one.

Climbing takes a least rank and a tree built so far, and reads on while the next operator binds at
least as tightly.  The two theorems about it are proved by the same induction over its steps
(`Chain.climb_induction`): it can be at the end, it can stop at an operator, or it can take an
operator, for which it climbs twice, once for the right side and once with what it has then.  What
carries the first proof is `Chain.Admits`: the next operator binds no more tightly than the
outermost operator of the tree, or else it would have been taken on the right side before.
-/

namespace Cellular

namespace Chain

variable {α : Type}

/-! ## Steps

The recursion is by the number of links that are left, and its definition carries a proof that this
number goes down.  These lemmas hide the proof: each gives the value of one kind of step.
-/

@[simp] lemma climb_nil (least : Nat) (c : Chain α) : (climb least c []).val = (c, []) := by
  rw [climb]

/-- An operator that binds too loosely is left alone. -/
lemma climb_of_lt {least : Nat} {link : Link α} (h : link.op.precedence < least) (c : Chain α)
    (more : List (Link α)) : (climb least c (link :: more)).val = (c, link :: more) := by
  rw [climb, if_pos h]

/-- Any other operator first gets its right side, then the rest follows. -/
lemma climb_of_le {least : Nat} (link : Link α) (h : least ≤ link.op.precedence) (c : Chain α)
    {more rest : List (Link α)} {right : Chain α}
    (hright : (climb (link.op.precedence + 1) (.operand link.operand) more).val = (right, rest)) :
    (climb least c (link :: more)).val
      = (climb least (.node link.note link.op c right) rest).val := by
  rw [climb, if_neg (Nat.not_lt.mpr h)]
  generalize climb (link.op.precedence + 1) (.operand link.operand) more = r at hright
  obtain ⟨⟨_, _⟩, _⟩ := r
  cases hright
  rfl

/-- A fact about climbing, by its steps. -/
lemma climb_induction {motive : Nat → Chain α → List (Link α) → Chain α × List (Link α) → Prop}
    (nil : ∀ least c, motive least c [] (c, []))
    (stop : ∀ least c link more, link.op.precedence < least →
      motive least c (link :: more) (c, link :: more))
    (step : ∀ least c link more right rest whole, least ≤ link.op.precedence →
      motive (link.op.precedence + 1) (.operand link.operand) more (right, rest) →
      motive least (.node link.note link.op c right) rest whole →
      motive least c (link :: more) whole)
    (least : Nat) (c : Chain α) (links : List (Link α)) :
    motive least c links (climb least c links).val := by
  induction least, c, links using climb.induct with
  | case1 least c =>
      rw [climb_nil]
      exact nil least c
  | case2 least c link more h =>
      rw [climb_of_lt h]
      exact stop least c link more h
  | case3 least c link more h right rest hrest hright whole hwhole hall ihright ihwhole =>
      rw [climb_of_le link (Nat.not_lt.mp h) c (congrArg Subtype.val hright), hall]
      rw [hright] at ihright
      rw [hall] at ihwhole
      exact step least c link more right rest whole (Nat.not_lt.mp h) ihright ihwhole

/-! ## What stands in the text

A tree is flattened by walking through it in order.
-/

/-- The first operand. -/
def head : Chain α → Expr α
  | .operand e => e
  | .node _ _ l _ => l.head

/-- The operators with the operands behind them, from left to right. -/
def links : Chain α → List (Link α)
  | .operand _ => []
  | .node n op l r => l.links ++ ⟨n, op, r.head⟩ :: r.links

/-- **Climbing loses nothing**: what it takes from the front of the operators is what the tree has
more at its end. -/
lemma climb_operands (least : Nat) (c : Chain α) (ks : List (Link α)) :
    (climb least c ks).val.1.head = c.head ∧
      ∃ used, ks = used ++ (climb least c ks).val.2 ∧
        (climb least c ks).val.1.links = c.links ++ used := by
  induction least, c, ks using climb_induction with
  | nil least c => exact ⟨rfl, [], by simp⟩
  | stop least c link more _ => exact ⟨rfl, [], by simp⟩
  | step least c link more right rest whole _ ihright ihwhole =>
      obtain ⟨hhead, used, hsplit, hlinks⟩ := ihright
      obtain ⟨hhead', used', hsplit', hlinks'⟩ := ihwhole
      refine ⟨hhead', link :: used ++ used', ?_, ?_⟩
      · rw [hsplit, hsplit']
        simp
      · rw [hlinks', links, hhead, hlinks]
        simp [head, links]

/-! ## Ranks

A rank is a number, greater for operators that bind more tightly.  In a ranked tree the operators on
the left of a node may have its rank and those on the right may not, so chains of one rank lean to
the left.
-/

/-- The outermost operator, if there is one, binds at least as tightly as `least`. -/
def Above (least : Nat) : Chain α → Prop
  | .operand _ => True
  | .node _ op _ _ => least ≤ op.precedence

/-- Below every operator stand, on its left, only operators that bind at least as tightly, and on
its right only those that bind more tightly. -/
def Ranked : Chain α → Prop
  | .operand _ => True
  | .node _ op l r =>
    l.Above op.precedence ∧ r.Above (op.precedence + 1) ∧ l.Ranked ∧ r.Ranked

/-- The next operator, if there is one, may stand above the outermost operator of a tree. -/
def Admits (c : Chain α) (ks : List (Link α)) : Prop :=
  ∀ link ∈ ks.head?, c.Above link.op.precedence

lemma Above.mono {least greater : Nat} (h : least ≤ greater) {c : Chain α} (hc : c.Above greater) :
    c.Above least := by
  cases c with
  | operand e => trivial
  | node n op l r => exact Nat.le_trans h hc

/-- **Climbing builds ranked trees**, and the operator that it stops at binds more loosely than all
that it took. -/
lemma climb_ranked (least : Nat) (c : Chain α) (ks : List (Link α)) :
    c.Ranked → c.Above least → c.Admits ks →
      (climb least c ks).val.1.Ranked ∧ (climb least c ks).val.1.Above least ∧
        ∀ link ∈ (climb least c ks).val.2.head?, link.op.precedence < least := by
  induction least, c, ks using climb_induction with
  | nil least c =>
      intro hranked habove _
      exact ⟨hranked, habove, by simp⟩
  | stop least c link more h =>
      intro hranked habove _
      exact ⟨hranked, habove, by simpa using h⟩
  | step least c link more right rest whole h ihright ihwhole =>
      intro hranked habove hadmits
      obtain ⟨hright, htight, hrest⟩ := ihright trivial trivial (fun _ _ => trivial)
      refine ihwhole ⟨hadmits link rfl, htight, hranked, hright⟩ h fun next hnext => ?_
      exact Nat.le_of_lt_succ (hrest next hnext)

/-- **A ranked tree is found again from its operands and operators.**  The left part of a tree is
climbed before its operator is reached; the right part is climbed on its own. -/
lemma climb_links {least : Nat} {c : Chain α} (hranked : c.Ranked) (habove : c.Above least)
    (tail : List (Link α)) (hadmits : c.Admits tail) :
    (climb least (.operand c.head) (c.links ++ tail)).val = (climb least c tail).val := by
  induction c generalizing least tail with
  | operand e => rfl
  | node n op l r ihl ihr =>
      obtain ⟨hl, hr, hlr, hrr⟩ := hranked
      have hleft := ihl hlr (hl.mono habove) (⟨n, op, r.head⟩ :: (r.links ++ tail))
        (fun _ hnext => by cases hnext; exact hl)
      have hadmits' : r.Admits tail := fun next hnext =>
        hr.mono (Nat.le_succ_of_le (hadmits next hnext))
      have hstop : (climb (op.precedence + 1) r tail).val = (r, tail) := by
        cases tail with
        | nil => exact climb_nil _ _
        | cons next more => exact climb_of_lt (Nat.lt_succ_of_le (hadmits next rfl)) _ _
      have hright := (ihr hrr hr tail hadmits').trans hstop
      rw [head, links, List.append_assoc, List.cons_append, hleft]
      exact climb_of_le ⟨n, op, r.head⟩ habove l hright

/-! ## Whole chains

With the least rank of all, nothing is left over, and the tree is the only one of its operands and
operators.
-/

/-- Operators that all have a rank are all taken. -/
lemma climb_all (e : Expr α) {ks : List (Link α)} (h : ∀ k ∈ ks, 1 ≤ k.op.precedence) :
    ∃ c : Chain α, (climb 1 (.operand e) ks).val = (c, []) ∧ c.Ranked ∧ c.Above 1 ∧ c.head = e ∧
      c.links = ks := by
  obtain ⟨hranked, habove, hrest⟩ :=
    climb_ranked 1 (.operand e) ks trivial trivial (fun _ _ => trivial)
  obtain ⟨hhead, used, hsplit, hlinks⟩ := climb_operands 1 (.operand e) ks
  generalize (climb 1 (.operand e) ks).val = r at *
  obtain ⟨c, rest⟩ := r
  have hempty : rest = [] := by
    cases rest with
    | nil => rfl
    | cons link more =>
        have hlow := hrest link rfl
        have hmem : link ∈ ks := hsplit ▸ List.mem_append_right used List.mem_cons_self
        have hhigh := h link hmem
        omega
  subst hempty
  refine ⟨c, rfl, hranked, habove, hhead, ?_⟩
  rw [hlinks, hsplit]
  simp [links]

/-- **There is one ranked tree** for given operands and operators, and climbing finds it. -/
lemma climb_eq {c : Chain α} (hranked : c.Ranked) (habove : c.Above 1) :
    (climb 1 (.operand c.head) c.links).val = (c, []) := by
  have h := climb_links hranked habove [] (fun _ hnext => by cases hnext)
  rwa [List.append_nil, climb_nil] at h

end Chain

end Cellular
