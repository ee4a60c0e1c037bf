import Cellular.Proofs.Source.Derivation

/-!
# What derivations look like

One lemma for each rule of the grammar lists the children that a tree of this rule can have, so that
nothing else takes a right-hand side apart.

* `Tree.IsA` are the trees of a rule.
* `Tree.induction` is the induction on trees.
* `Tree.Everywhere` states a property of a tree and all trees below.

The grammar is data, and a derivation from a right-hand side is a list of trees of which nothing is
known at first but that it was put together by some of the constructors.  Taking it apart is always
the same work, and is done here once for every rule.  The lemmas are written so that a proof about a
reader can match on the children as the reader itself does; the tokens that the reader skips are
named as well, since other proofs need their texts.
-/

namespace Cellular

namespace Tree

/-- A tree whose root is the rule `p` and whose children derive from it. -/
def IsA (p : Production) : Tree → Prop
  | .leaf _ => False
  | .node q _ ts => q = p ∧ p.body.Derives ts

/-- A property of all trees, by the trees below them. -/
theorem induction {motive : Tree → Prop} (leaf : ∀ t, motive (.leaf t))
    (node : ∀ p pos ts, (∀ t ∈ ts, motive t) → motive (.node p pos ts)) : ∀ t, motive t
  | .leaf t => leaf t
  | .node p pos ts => node p pos ts fun t _ => induction leaf node t

mutual

/-- A property of a tree and of all trees below. -/
def Everywhere (P : Tree → Prop) : Tree → Prop
  | .leaf t => P (.leaf t)
  | .node p pos ts => P (.node p pos ts) ∧ AllEverywhere P ts

/-- A property of all trees in or below a list. -/
def AllEverywhere (P : Tree → Prop) : List Tree → Prop
  | [] => True
  | t :: ts => Everywhere P t ∧ AllEverywhere P ts

end

lemma allEverywhere_iff {P : Tree → Prop} {ts : List Tree} :
    AllEverywhere P ts ↔ ∀ t ∈ ts, t.Everywhere P := by
  induction ts with
  | nil => simp [AllEverywhere]
  | cons t ts ih => simp [AllEverywhere, ih]

lemma everywhere_node {P : Tree → Prop} {p : Production} {pos : Position} {ts : List Tree} :
    (Tree.node p pos ts).Everywhere P ↔ P (.node p pos ts) ∧ ∀ t ∈ ts, t.Everywhere P := by
  rw [Everywhere, allEverywhere_iff]

lemma Everywhere.here {P : Tree → Prop} {t : Tree} (h : t.Everywhere P) : P t := by
  cases t with
  | leaf t => rwa [Everywhere] at h
  | node p pos ts => exact (everywhere_node.mp h).1

/-- A token below a tree in a list is among those of the list. -/
lemma mem_leavesAll {t : Tree} {ts : List Tree} (ht : t ∈ ts) {k : Token} (hk : k ∈ t.leaves) :
    k ∈ leavesAll ts := by
  induction ts with
  | nil => cases ht
  | cons u ts ih =>
      rw [leavesAll_cons, List.mem_append]
      rcases List.mem_cons.mp ht with rfl | ht
      · exact .inl hk
      · exact .inr (ih ht)

lemma mem_leavesAll_of_leaf {k : Token} {ts : List Tree} (h : Tree.leaf k ∈ ts) :
    k ∈ leavesAll ts :=
  mem_leavesAll h (by simp)

lemma IsA.derived {p : Production} {t : Tree} (h : t.IsA p) : t.Derived := by
  cases t with
  | leaf _ => trivial
  | node q pos ts =>
      obtain ⟨rfl, h⟩ := h
      exact h

lemma IsA.derives {p : Production} {t : Tree} (h : t.IsA p) : (Grammar.rule p).Derives [t] := by
  cases t with
  | leaf _ => cases h
  | node q pos ts =>
      obtain ⟨rfl, h⟩ := h
      exact .rule h

lemma IsA.node {p : Production} {t : Tree} (h : t.IsA p) :
    ∃ pos ts, t = .node p pos ts ∧ p.body.Derives ts := by
  cases t with
  | leaf _ => cases h
  | node q pos ts =>
      obtain ⟨rfl, h⟩ := h
      exact ⟨pos, ts, rfl, h⟩

end Tree

namespace Grammar.Derives

variable {p : Production} {gs : List Grammar} {ts : List Tree}

/-! ## Items of a sequence

A sequence of the grammar is taken apart from the front, one item at a time.
-/

lemma isA (h : Derives (.rule p) ts) : ∃ t : Tree, ts = [t] ∧ t.IsA p := by
  obtain ⟨pos, us, rfl, hbody⟩ := h.of_rule
  exact ⟨_, rfl, rfl, hbody⟩

lemma of_seq_nil (h : Derives (.seq []) ts) : ts = [] := by
  cases h
  rfl

lemma of_seq_literal {s : String} (h : Derives (.seq (.literal s :: gs)) ts) :
    ∃ (t : Token) (us : List Tree), ts = .leaf t :: us ∧ t.text = s ∧ Derives (.seq gs) us := by
  obtain ⟨us, vs, rfl, head, tail⟩ := h.of_seq_cons
  cases head with
  | literal ht => exact ⟨_, vs, rfl, ht, tail⟩

lemma of_seq_kind {k : TokenKind} (h : Derives (.seq (.kind k :: gs)) ts) :
    ∃ (t : Token) (us : List Tree), ts = .leaf t :: us ∧ t.kind = k ∧ Derives (.seq gs) us := by
  obtain ⟨us, vs, rfl, head, tail⟩ := h.of_seq_cons
  cases head with
  | kind ht => exact ⟨_, vs, rfl, ht, tail⟩

lemma of_seq_oneOf {texts : List String} (h : Derives (.seq (.oneOf texts :: gs)) ts) :
    ∃ (t : Token) (us : List Tree), ts = .leaf t :: us ∧ t.text ∈ texts ∧ Derives (.seq gs) us := by
  obtain ⟨us, vs, rfl, head, tail⟩ := h.of_seq_cons
  obtain ⟨t, rfl, ht⟩ := head.of_oneOf
  exact ⟨t, vs, rfl, ht, tail⟩

lemma of_seq_rule (h : Derives (.seq (.rule p :: gs)) ts) :
    ∃ (t : Tree) (us : List Tree), ts = t :: us ∧ t.IsA p ∧ Derives (.seq gs) us := by
  obtain ⟨us, vs, rfl, head, tail⟩ := h.of_seq_cons
  obtain ⟨t, rfl, ht⟩ := head.isA
  exact ⟨t, vs, rfl, ht, tail⟩

lemma of_optional {g : Grammar} (h : Derives (.optional g) ts) : ts = [] ∨ g.Derives ts := by
  cases h with
  | absent => exact .inl rfl
  | present h => exact .inr h

/-- A repetition of a rule is a list of its trees. -/
lemma of_many_rule (h : Derives (.many (.rule p)) ts) : ∀ t ∈ ts, t.IsA p := by
  generalize hg : Grammar.many (.rule p) = g at h
  induction h with
  | manyNil => simp
  | manyCons head _ _ ihtail =>
      cases hg
      obtain ⟨t, rfl, ht⟩ := head.isA
      exact List.forall_mem_cons.mpr ⟨ht, ihtail rfl⟩
  | _ => cases hg

lemma of_alt_cons {g : Grammar} (h : Derives (.alt (g :: gs)) ts) :
    g.Derives ts ∨ Derives (.alt gs) ts := by
  cases h with
  | alt mem h =>
      rcases List.mem_cons.mp mem with rfl | mem
      · exact .inl h
      · exact .inr (.alt mem h)

lemma not_alt_nil : ¬ Derives (.alt []) ts := by
  intro h
  cases h with
  | alt mem _ => cases mem

/-! ## Statements

A statement is one of four rules, and each of these has one or two forms.
-/

lemma of_stmt (h : Production.stmt.body.Derives ts) :
    ∃ inner : Tree, ts = [inner] ∧
      (inner.IsA .block ∨ inner.IsA .cond ∨ inner.IsA .decl ∨ inner.IsA .assign) := by
  rcases h.of_alt_cons with h | h
  · obtain ⟨t, rfl, ht⟩ := h.isA
    exact ⟨t, rfl, .inl ht⟩
  rcases h.of_alt_cons with h | h
  · obtain ⟨t, rfl, ht⟩ := h.isA
    exact ⟨t, rfl, .inr (.inl ht)⟩
  rcases h.of_alt_cons with h | h
  · obtain ⟨t, rfl, ht⟩ := h.isA
    exact ⟨t, rfl, .inr (.inr (.inl ht))⟩
  rcases h.of_alt_cons with h | h
  · obtain ⟨t, rfl, ht⟩ := h.isA
    exact ⟨t, rfl, .inr (.inr (.inr ht))⟩
  · exact absurd h not_alt_nil

lemma of_block (h : Production.block.body.Derives ts) :
    ∃ (opening closing : Token) (body : List Tree),
      ts = .leaf opening :: (body ++ [.leaf closing]) ∧ opening.text = "\x7b" ∧ closing.text = "\x7d" ∧ ∀ t ∈ body, t.IsA .stmt := by
  obtain ⟨opening, _, rfl, hopening, h⟩ := of_seq_literal h
  obtain ⟨body, _, rfl, hbody, h⟩ := h.of_seq_cons
  obtain ⟨closing, _, rfl, hclosing, h⟩ := h.of_seq_literal
  obtain rfl := h.of_seq_nil
  exact ⟨opening, closing, body, rfl, hopening, hclosing, hbody.of_many_rule⟩

/-- A condition without or with a second branch. -/
lemma of_cond (h : Production.cond.body.Derives ts) :
    ∃ (word opening closing : Token) (test yes : Tree), word.text = "if" ∧ opening.text = "(" ∧
      closing.text = ")" ∧ test.IsA .expr ∧ yes.IsA .stmt ∧
      (ts = [.leaf word, .leaf opening, test, .leaf closing, yes] ∨
        ∃ (other : Token) (no : Tree), other.text = "else" ∧ no.IsA .stmt ∧
          ts = [.leaf word, .leaf opening, test, .leaf closing, yes, .leaf other, no]) := by
  obtain ⟨word, _, rfl, hword, h⟩ := of_seq_literal h
  obtain ⟨opening, _, rfl, hopening, h⟩ := h.of_seq_literal
  obtain ⟨test, _, rfl, htest, h⟩ := h.of_seq_rule
  obtain ⟨closing, _, rfl, hclosing, h⟩ := h.of_seq_literal
  obtain ⟨yes, _, rfl, hyes, h⟩ := h.of_seq_rule
  obtain ⟨us, _, rfl, helse, h⟩ := h.of_seq_cons
  obtain rfl := h.of_seq_nil
  refine ⟨word, opening, closing, test, yes, hword, hopening, hclosing, htest, hyes, ?_⟩
  rcases helse.of_optional with rfl | helse
  · exact .inl rfl
  · obtain ⟨other, _, rfl, hother, h⟩ := helse.of_seq_literal
    obtain ⟨no, _, rfl, hno, h⟩ := h.of_seq_rule
    obtain rfl := h.of_seq_nil
    exact .inr ⟨other, no, hother, hno, rfl⟩

/-- A declaration without or with an initial value. -/
lemma of_decl (h : Production.decl.body.Derives ts) :
    ∃ type name closing : Token, type.text ∈ ["bool", "int", "float"] ∧ name.kind = .ident ∧
      closing.text = ";" ∧ (ts = [.leaf type, .leaf name, .leaf closing] ∨
        ∃ (sign : Token) (init : Tree), sign.text = "=" ∧ init.IsA .expr ∧
          ts = [.leaf type, .leaf name, .leaf sign, init, .leaf closing]) := by
  obtain ⟨type, _, rfl, htype, h⟩ := of_seq_oneOf h
  obtain ⟨name, _, rfl, hname, h⟩ := h.of_seq_kind
  obtain ⟨us, _, rfl, hinit, h⟩ := h.of_seq_cons
  obtain ⟨closing, _, rfl, hclosing, h⟩ := h.of_seq_literal
  obtain rfl := h.of_seq_nil
  refine ⟨type, name, closing, htype, hname, hclosing, ?_⟩
  rcases hinit.of_optional with rfl | hinit
  · exact .inl rfl
  · obtain ⟨sign, _, rfl, hsign, h⟩ := hinit.of_seq_literal
    obtain ⟨init, _, rfl, hvalue, h⟩ := h.of_seq_rule
    obtain rfl := h.of_seq_nil
    exact .inr ⟨sign, init, hsign, hvalue, rfl⟩

lemma of_assign (h : Production.assign.body.Derives ts) :
    ∃ (op closing : Token) (target value : Tree), ts = [target, .leaf op, value, .leaf closing] ∧
      target.IsA .access ∧ op.text ∈ ["=", "+=", "-=", "*=", "/=", "%="] ∧ value.IsA .expr ∧
      closing.text = ";" := by
  obtain ⟨target, _, rfl, htarget, h⟩ := of_seq_rule h
  obtain ⟨op, _, rfl, hop, h⟩ := h.of_seq_oneOf
  obtain ⟨value, _, rfl, hvalue, h⟩ := h.of_seq_rule
  obtain ⟨closing, _, rfl, hclosing, h⟩ := h.of_seq_literal
  obtain rfl := h.of_seq_nil
  exact ⟨op, closing, target, value, rfl, htarget, hop, hvalue, hclosing⟩

/-! ## Expressions

Chains and dotted names have a repetition at their end, so they are lists and are met with by
induction.
-/

/-- An operator chain, or one with two results to choose from. -/
lemma of_expr (h : Production.expr.body.Derives ts) :
    ∃ chain : Tree, chain.IsA .chain ∧ (ts = [chain] ∨
      ∃ (asks parts : Token) (yes no : Tree), asks.text = "?" ∧ parts.text = ":" ∧ yes.IsA .expr ∧
        no.IsA .expr ∧ ts = [chain, .leaf asks, yes, .leaf parts, no]) := by
  obtain ⟨chain, _, rfl, hchain, h⟩ := of_seq_rule h
  obtain ⟨us, _, rfl, hmore, h⟩ := h.of_seq_cons
  obtain rfl := h.of_seq_nil
  refine ⟨chain, hchain, ?_⟩
  rcases hmore.of_optional with rfl | hmore
  · exact .inl rfl
  · obtain ⟨asks, _, rfl, hasks, h⟩ := hmore.of_seq_literal
    obtain ⟨yes, _, rfl, hyes, h⟩ := h.of_seq_rule
    obtain ⟨parts, _, rfl, hparts, h⟩ := h.of_seq_literal
    obtain ⟨no, _, rfl, hno, h⟩ := h.of_seq_rule
    obtain rfl := h.of_seq_nil
    exact .inr ⟨asks, parts, yes, no, hasks, hparts, hyes, hno, rfl⟩

lemma of_chain (h : Production.chain.body.Derives ts) :
    ∃ (head : Tree) (links : List Tree), ts = head :: links ∧ head.IsA .unary ∧
      ∀ t ∈ links, t.IsA .link := by
  obtain ⟨head, _, rfl, hhead, h⟩ := of_seq_rule h
  obtain ⟨links, _, rfl, hlinks, h⟩ := h.of_seq_cons
  obtain rfl := h.of_seq_nil
  exact ⟨head, links, by simp, hhead, hlinks.of_many_rule⟩

lemma of_link (h : Production.link.body.Derives ts) :
    ∃ (op : Token) (operand : Tree), ts = [.leaf op, operand] ∧
      op.text ∈ ["||", "&&", "==", "!=", "<=", ">=", "<", ">", "+", "-", "*", "/", "%"] ∧
      operand.IsA .unary := by
  obtain ⟨op, _, rfl, hop, h⟩ := of_seq_oneOf h
  obtain ⟨operand, _, rfl, hoperand, h⟩ := h.of_seq_rule
  obtain rfl := h.of_seq_nil
  exact ⟨op, operand, rfl, hop, hoperand⟩

lemma of_unary (h : Production.unary.body.Derives ts) :
    (∃ (op : Token) (operand : Tree), ts = [.leaf op, operand] ∧ op.text ∈ ["!", "-"] ∧
      operand.IsA .unary) ∨ ∃ primary : Tree, ts = [primary] ∧ primary.IsA .primary := by
  rcases h.of_alt_cons with h | h
  · obtain ⟨op, _, rfl, hop, h⟩ := of_seq_oneOf h
    obtain ⟨operand, _, rfl, hoperand, h⟩ := h.of_seq_rule
    obtain rfl := h.of_seq_nil
    exact .inl ⟨op, operand, rfl, hop, hoperand⟩
  rcases h.of_alt_cons with h | h
  · obtain ⟨primary, rfl, hprimary⟩ := h.isA
    exact .inr ⟨primary, rfl, hprimary⟩
  · exact absurd h not_alt_nil

/-- A literal, a cast, a dotted name or an expression in parentheses. -/
lemma of_primary (h : Production.primary.body.Derives ts) :
    (∃ t : Token, ts = [.leaf t] ∧ (t.kind = .float ∨ t.kind = .int ∨ t.text ∈ ["true", "false"])) ∨
      (∃ cast : Tree, ts = [cast] ∧ cast.IsA .cast) ∨
      (∃ access : Tree, ts = [access] ∧ access.IsA .access) ∨
      ∃ (opening closing : Token) (inner : Tree), ts = [.leaf opening, inner, .leaf closing] ∧
        opening.text = "(" ∧ closing.text = ")" ∧ inner.IsA .expr := by
  rcases h.of_alt_cons with h | h
  · cases h with
    | kind ht => exact .inl ⟨_, rfl, .inl ht⟩
  rcases h.of_alt_cons with h | h
  · cases h with
    | kind ht => exact .inl ⟨_, rfl, .inr (.inl ht)⟩
  rcases h.of_alt_cons with h | h
  · obtain ⟨t, rfl, ht⟩ := of_oneOf h
    exact .inl ⟨t, rfl, .inr (.inr ht)⟩
  rcases h.of_alt_cons with h | h
  · exact .inr (.inl h.isA)
  rcases h.of_alt_cons with h | h
  · exact .inr (.inr (.inl h.isA))
  rcases h.of_alt_cons with h | h
  · obtain ⟨opening, _, rfl, hopening, h⟩ := h.of_seq_literal
    obtain ⟨inner, _, rfl, hinner, h⟩ := h.of_seq_rule
    obtain ⟨closing, _, rfl, hclosing, h⟩ := h.of_seq_literal
    obtain rfl := h.of_seq_nil
    exact .inr (.inr (.inr ⟨opening, closing, inner, rfl, hopening, hclosing, hinner⟩))
  · exact absurd h not_alt_nil

lemma of_cast (h : Production.cast.body.Derives ts) :
    ∃ (target opening closing : Token) (operand : Tree),
      ts = [.leaf target, .leaf opening, operand, .leaf closing] ∧
      target.text ∈ ["int", "float", "bool"] ∧ opening.text = "(" ∧ closing.text = ")" ∧
      operand.IsA .expr := by
  obtain ⟨target, _, rfl, htarget, h⟩ := of_seq_oneOf h
  obtain ⟨opening, _, rfl, hopening, h⟩ := h.of_seq_literal
  obtain ⟨operand, _, rfl, hoperand, h⟩ := h.of_seq_rule
  obtain ⟨closing, _, rfl, hclosing, h⟩ := h.of_seq_literal
  obtain rfl := h.of_seq_nil
  exact ⟨target, opening, closing, operand, rfl, htarget, hopening, hclosing, hoperand⟩

/-- The further parts of a dotted name, each behind its dot. -/
lemma of_many_parts (h : Derives (.many (.seq [.literal ".", .kind .ident])) ts) :
    ∃ parts : List (Token × Token), ts = parts.flatMap (fun part => [.leaf part.1, .leaf part.2]) ∧
      ∀ part ∈ parts, part.1.text = "." ∧ part.2.kind = .ident := by
  generalize hg : Grammar.many (.seq [.literal ".", .kind .ident]) = g at h
  induction h with
  | manyNil => exact ⟨[], rfl, by simp⟩
  | manyCons head _ _ ihtail =>
      cases hg
      obtain ⟨dot, _, rfl, hdot, h⟩ := head.of_seq_literal
      obtain ⟨name, _, rfl, hname, h⟩ := h.of_seq_kind
      obtain rfl := h.of_seq_nil
      obtain ⟨parts, rfl, hparts⟩ := ihtail rfl
      exact ⟨(dot, name) :: parts, rfl, List.forall_mem_cons.mpr ⟨⟨hdot, hname⟩, hparts⟩⟩
  | _ => cases hg

/-- A name and further parts of it, each behind its dot. -/
lemma of_access (h : Production.access.body.Derives ts) :
    ∃ (root : Token) (parts : List (Token × Token)),
      ts = .leaf root :: parts.flatMap (fun part => [.leaf part.1, .leaf part.2]) ∧
      root.kind = .ident ∧ ∀ part ∈ parts, part.1.text = "." ∧ part.2.kind = .ident := by
  obtain ⟨root, _, rfl, hroot, h⟩ := of_seq_kind h
  obtain ⟨more, _, rfl, hmore, h⟩ := h.of_seq_cons
  obtain rfl := h.of_seq_nil
  obtain ⟨parts, rfl, hparts⟩ := hmore.of_many_parts
  exact ⟨root, parts, by simp, hroot, hparts⟩

end Grammar.Derives

end Cellular
