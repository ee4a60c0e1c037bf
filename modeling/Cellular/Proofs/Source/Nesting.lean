import Cellular.Proofs.Source.Printing
import Mathlib.Data.List.Forall2

/-!
# How operator chains nest

The grammar derives an operator chain as a flat list: an operand, and behind it operators with their
operands.  Reading the list is where the ranks of the operators come in.

* `Tree.ReadsLink` relates the derivation of an operator and its operand to what it is read as.
* `readLinks_of_forall₂`: the links of a chain are read one by one.
* `readExpr_ranked`: a chain is read as the only ranked tree of its operands and operators, and no
  operator is left over.

Everything about ranks is proved of chains, in the theory of the rule language; what is added here
is the way from a derivation to a chain.  Operands are read before the ranks are looked at, so a
chain has expressions as operands and does not care what they are.  `Chain.Above` is met by every
list of links with operators of the language, and therefore no link is left over.  The statement is
about trees of any length that are built from links, not about texts; the example shows the tree of
a text in print.
-/

namespace Cellular

/-- The derivation of an operator of the language with an operand behind it, and the link that it is
read as. -/
inductive Tree.ReadsLink : Tree → Link Position → Prop where
  | link {pos : Position} {sign : Token} {op : BinaryOp} {operand : Tree} {e : Expr Position}
      (hop : op ∈ BinaryOp.known) (hsign : sign.text = op.symbol) (hread : readExpr operand = .ok e) :
      ReadsLink (.node .link pos [.leaf sign, operand]) ⟨pos, op, e⟩

/-- **The links of a chain are read one by one**, and every operator among them has a rank. -/
lemma readLinks_of_forall₂ {ts : List Tree} {ks : List (Link Position)}
    (h : List.Forall₂ Tree.ReadsLink ts ks) :
    readLinks ts = .ok ks ∧ ∀ k ∈ ks, 1 ≤ k.op.precedence := by
  induction h with
  | nil => exact ⟨by rw [readLinks], by simp⟩
  | cons hlink _ ih =>
      obtain ⟨ihread, ihrank⟩ := ih
      cases hlink with
      | link hop hsign hread =>
          rw [List.forall_mem_cons]
          refine ⟨?_, BinaryOp.one_le_precedence _ hop, ihrank⟩
          obtain ⟨-, -, hofSymbol⟩ := BinaryOp.symbol_known _ hop
          rw [readLinks, hread, ihread, hsign, hofSymbol]
          rfl

/-- The outermost operator of a tree is one of its links. -/
lemma Chain.above_of_links {α : Type} {least : Nat} {c : Chain α}
    (h : ∀ k ∈ c.links, least ≤ k.op.precedence) : c.Above least := by
  cases c with
  | operand e => trivial
  | node n op l r => exact h ⟨n, op, r.head⟩ (by simp [links])

/-- **Operator chains nest by rank.**  An operator chain of any length whose operands are read is
read itself.  All of its operators are taken, and the tree that they make has the same operands and
operators in the same order; below every operator stand, on its left, only operators that bind at
least as tightly, and on its right only those that bind more tightly.  There is no other such
tree. -/
theorem readExpr_ranked {pos : Position} {head : Tree} {ts : List Tree} {e : Expr Position}
    {ks : List (Link Position)} (hhead : readExpr head = .ok e)
    (hlinks : List.Forall₂ Tree.ReadsLink ts ks) :
    ∃ c : Chain Position, readExpr (.node .chain pos (head :: ts)) = .ok c.toExpr ∧
      (Chain.climb 1 (.operand e) ks).val = (c, []) ∧ c.head = e ∧ c.links = ks ∧ c.Ranked ∧
      ∀ c' : Chain Position, c'.head = e → c'.links = ks → c'.Ranked → c' = c := by
  obtain ⟨hread, hranks⟩ := readLinks_of_forall₂ hlinks
  obtain ⟨c, hclimb, hranked, -, hfirst, hrest⟩ := Chain.climb_all e hranks
  refine ⟨c, ?_, hclimb, hfirst, hrest, hranked, ?_⟩
  · rw [readExpr, hhead, ok_bind, hread, ok_bind, readChain, hclimb]
  · intro c' hfirst' hrest' hranked'
    have habove : c'.Above 1 := Chain.above_of_links (hrest' ▸ hranks)
    have hclimb' := Chain.climb_eq hranked' habove
    rw [hfirst', hrest', hclimb] at hclimb'
    exact (congrArg Prod.fst hclimb').symm

/-- The derivation of an operand that is a name. -/
def Tree.named (name : String) : Tree :=
  .node .unary {} [.node .primary {} [.node .access {} [.leaf ⟨.ident, name, {}⟩]]]

/-- The derivation of an operator with a name behind it. -/
def Tree.linked (op : BinaryOp) (name : String) : Tree :=
  .node .link {} [.leaf ⟨.operator, op.symbol, {}⟩, .named name]

/-- `a - b * c - d < e`: of two operators of one rank the right one stands above. -/
theorem readExpr_ranked_mixed :
    ∃ c : Chain Position, readExpr (.node .chain {} [.named "a", .linked .sub "b", .linked .mul "c",
        .linked .sub "d", .linked .lt "e"]) = .ok c.toExpr ∧
      c.toExpr.text = "(((a - (b * c)) - d) < e)" := by
  have hname : ∀ name, readExpr (.named name) = .ok (.access {} ⟨name, []⟩) := fun _ => rfl
  have hlink : ∀ op ∈ BinaryOp.known, ∀ name,
      (Tree.linked op name).ReadsLink ⟨{}, op, .access {} ⟨name, []⟩⟩ :=
    fun op hop name => .link hop rfl (hname name)
  have hlinks := List.Forall₂.cons (hlink .sub (by decide) "b") <|
    .cons (hlink .mul (by decide) "c") <| .cons (hlink .sub (by decide) "d") <|
    .cons (hlink .lt (by decide) "e") .nil
  obtain ⟨c, hread, -, -, -, -, hunique⟩ := @readExpr_ranked {} _ _ _ _ (hname "a") hlinks
  let name (text : String) : Chain Position := .operand (.access {} ⟨text, []⟩)
  have hranked : (Chain.node {} .lt (.node {} .sub (.node {} .sub (name "a")
      (.node {} .mul (name "b") (name "c"))) (name "d")) (name "e")).Ranked := by
    simp [Chain.Ranked, Chain.Above, BinaryOp.precedence, name]
  rw [← hunique _ rfl rfl hranked] at hread
  exact ⟨_, hread, by decide +kernel⟩

end Cellular
