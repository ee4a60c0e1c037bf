import Cellular.Proofs.Source.Printing

/-!
# Rules read back

What a program of rules is made of, written in its usual form, is read as what it was written for,
places aside.

* `RereadsChain` says of a piece of a text that it holds operands with operators between them;
  `RereadsChain.expr` reads it as the one tree that the ranks of the operators allow.
* `Stmt.Rereads` says of a piece of a text that it is read as a statement, and `Stmt.AllReread` says
  so of statements in turn, with any blanks between them.
* `Program.exists_parse`: a whole text is read as its statements.

Expressions that are printed have all their parentheses.  Rules that are generated from a table are
written as a person would write them, with chains of operators and without parentheses, and the
ranks decide how they are read.  So there is a second relation for texts of expressions, for chains:
what has to be shown of a text is that its tree is ranked, and then it is the tree that is read.

Statements are composed from pieces in the same way as expressions.  A condition with two branches
asks that its first branch is not open, or else the second one would be read as belonging there.
-/

namespace Cellular

/-! ## Chains without places

Ranked trees are compared without places; whether a tree is ranked does not depend on them.
-/

namespace Chain

variable {α : Type}

/-- The same chain without its places. -/
def bare : Chain α → Chain Unit
  | .operand e => .operand e.bare
  | .node _ op l r => .node () op l.bare r.bare

lemma above_bare {least : Nat} {c : Chain α} : c.bare.Above least ↔ c.Above least := by
  cases c <;> exact Iff.rfl

lemma ranked_bare {c : Chain α} : c.bare.Ranked ↔ c.Ranked := by
  induction c with
  | operand e => exact Iff.rfl
  | node n op l r ihl ihr => rw [bare, Ranked, Ranked, above_bare, above_bare, ihl, ihr]

lemma bare_toExpr (c : Chain α) : c.toExpr.bare = c.bare.toExpr := by
  induction c with
  | operand e => rfl
  | node n op l r ihl ihr =>
      rw [bare, toExpr, toExpr, ← ihl, ← ihr]
      rfl

end Chain

/-! ## Operands and operators

The pieces of a chain are operands.  They are appended with operators between them, in any order of
grouping, as the chain is flat.
-/

lemma readLinks_append {ts us : List Tree} (hisA : ∀ t ∈ ts, t.IsA .link)
    {ks ms : List (Link Position)} (hts : readLinks ts = .ok ks) (hus : readLinks us = .ok ms) :
    readLinks (ts ++ us) = .ok (ks ++ ms) := by
  induction ts generalizing ks with
  | nil =>
      rw [readLinks] at hts
      cases hts
      exact hus
  | cons t ts ih =>
      obtain ⟨ht, hmore⟩ := List.forall_mem_cons.mp hisA
      obtain ⟨pos, vs, rfl, hlink⟩ := ht.node
      obtain ⟨op, operand, rfl, -, -⟩ := hlink.of_link
      simp only [readLinks, bind_eq_ok, pure_eq_ok] at hts
      obtain ⟨e, he, links, hlinks, rfl⟩ := hts
      rw [List.cons_append, readLinks, he, ok_bind, ih hmore hlinks]
      rfl

/-- The text `cs`, wherever it stands, holds the operands of the chain `c` with its operators between
them, places aside. -/
structure RereadsChain (cs : List Char) (c : Chain Unit) : Prop where
  front : Fronted cs
  trees : ∀ last pos, ∃ (t : Tree) (ts : List Tree) (c' : Chain Position),
    (t.IsA .unary ∧ ∀ u ∈ ts, u.IsA .link) ∧ (∀ u ∈ t :: ts, u.Placed last) ∧
    (readExpr t = .ok c'.head ∧ readLinks ts = .ok c'.links ∧ c'.bare = c) ∧
    ∀ rest, Behind rest → Splits cs pos (Tree.leavesAll (t :: ts)) rest

namespace RereadsChain

variable {cs ds : List Char} {c d : Chain Unit}

lemma operand {e : Expr Unit} (h : Rereads .unary cs e) : RereadsChain cs (.operand e) := by
  refine ⟨h.front, fun last pos => ?_⟩
  obtain ⟨t, hisA, hplaced, ⟨e', hread, rfl⟩, hsplits⟩ := h.tree last pos
  refine ⟨t, [], .operand e', ⟨hisA, by simp⟩, by simpa using hplaced, ⟨hread, rfl, rfl⟩, ?_⟩
  simpa using hsplits

/-- An operator between two chains. -/
lemma node (op : BinaryOp) (hop : op ∈ BinaryOp.known) (hc : RereadsChain cs c)
    (hd : RereadsChain ds d) :
    RereadsChain (cs ++ ' ' :: (op.symbol.toList ++ ' ' :: ds)) (.node () op c d) := by
  obtain ⟨hword, hsymbol, hofSymbol⟩ := BinaryOp.symbol_known op hop
  refine ⟨hc.front.append _, fun last pos => ?_⟩
  set sign : Token := ⟨.operator, op.symbol, (pos.afterAll cs).after ' '⟩
  obtain ⟨t, ts, c', ⟨ht, hts⟩, hplaced, ⟨hhead, hlinks, rfl⟩, hsplits⟩ := hc.trees last pos
  obtain ⟨u, us, d', ⟨hu, hus⟩, hplaced', ⟨hhead', hlinks', rfl⟩, hsplits'⟩ :=
    hd.trees last ((((pos.afterAll cs).after ' ').afterAll op.symbol.toList).after ' ')
  rw [List.forall_mem_cons] at hplaced hplaced'
  set link : Tree := .root last .link [.leaf sign, u]
  refine ⟨t, ts ++ link :: us, .node sign.pos op c' d', ⟨ht, ?_⟩, ?_, ⟨hhead, ?_, rfl⟩, ?_⟩
  · rw [List.forall_mem_append, List.forall_mem_cons]
    exact ⟨hts, Tree.isA_root (.seqCons (.oneOf hsymbol) (.seqCons hu.derives .seqNil)), hus⟩
  · rw [List.forall_mem_cons, List.forall_mem_append, List.forall_mem_cons]
    exact ⟨hplaced.1, hplaced.2, Tree.placed_root (by simp [Tree.placed_token, hplaced'.1]),
      hplaced'.2⟩
  · have hlink : readLinks (link :: us) = .ok (⟨sign.pos, op, d'.head⟩ :: d'.links) := by
      simp only [link, Tree.root, readLinks, hhead', hlinks', ok_bind, sign, hofSymbol]
      rfl
    exact readLinks_append hts hlinks hlink
  · intro rest hrest
    have hwhole := (hsplits _ (.blank _)).append (Splits.spaced hword (hsplits' rest hrest))
    simpa [Tree.leavesAll_append, link, Tree.leaves_root, sign] using hwhole

/-- **Operands with operators between them are read as their ranked tree.** -/
theorem expr (h : RereadsChain cs c) (hranked : c.Ranked) (habove : c.Above 1) :
    Rereads .expr cs c.toExpr := by
  refine Rereads.expr ⟨h.front, fun last pos => ?_⟩
  obtain ⟨t, ts, c', ⟨ht, hts⟩, hplaced, ⟨hhead, hlinks, rfl⟩, hsplits⟩ := h.trees last pos
  refine ⟨.root last .chain (t :: ts), ?_, Tree.placed_root hplaced, ?_, ?_⟩
  · rw [← List.append_nil ts]
    exact Tree.isA_root (.seqCons ht.derives (.seqCons (.many_rule hts) .seqNil))
  · have hclimb := Chain.climb_eq (Chain.ranked_bare.mp hranked) (Chain.above_bare.mp habove)
    refine ⟨c'.toExpr, ?_, c'.bare_toExpr⟩
    rw [Tree.root, readExpr, hhead, ok_bind, hlinks, ok_bind, readChain, hclimb]
  · intro rest hrest
    simpa [Tree.leaves_root] using hsplits rest hrest

end RereadsChain

/-! ## Statements

`Stmt.AllReread` allows blanks in front of every statement, which covers lines and indentation.
-/

/-- The same statement without its places. -/
def Stmt.bare {α : Type} (s : Stmt α) : Stmt Unit := s.map fun _ => ()

/-- The same statements without their places. -/
def Stmt.allBare {α : Type} (ss : List (Stmt α)) : List (Stmt Unit) := Stmt.mapAll (fun _ => ()) ss

mutual

lemma Stmt.map_map {α β γ : Type} (f : α → β) (g : β → γ) :
    ∀ s : Stmt α, (s.map f).map g = s.map fun n => g (f n)
  | .block n body => by simp only [Stmt.map, Stmt.mapAll_mapAll]
  | .declare n type name init => by
      simp only [Stmt.map, Option.map_map]
      congr 2
      funext e
      exact e.map_map f g
  | .assign n m target op value => by simp only [Stmt.map, Expr.map_map]
  | .when n test body => by simp only [Stmt.map, Expr.map_map, Stmt.map_map]
  | .branch n test yes no => by simp only [Stmt.map, Expr.map_map, Stmt.map_map]

lemma Stmt.mapAll_mapAll {α β γ : Type} (f : α → β) (g : β → γ) :
    ∀ ss : List (Stmt α), Stmt.mapAll g (Stmt.mapAll f ss) = Stmt.mapAll (fun n => g (f n)) ss
  | [] => by simp only [Stmt.mapAll]
  | s :: ss => by simp only [Stmt.mapAll, Stmt.map_map, Stmt.mapAll_mapAll]

end

lemma Stmt.isOpen_bare {α : Type} : ∀ s : Stmt α, s.bare.isOpen = s.isOpen
  | .block .. | .declare .. | .assign .. | .when .. => by simp [Stmt.bare, Stmt.map, Stmt.isOpen]
  | .branch _ _ _ no => by
      rw [Stmt.bare, Stmt.map, Stmt.isOpen, Stmt.isOpen]
      exact isOpen_bare no

/-- The text `cs`, wherever it stands, is derived as a statement and read as `s`, places aside. -/
def Stmt.Rereads (cs : List Char) (s : Stmt Unit) : Prop :=
  ∀ last pos, ∃ t : Tree, (t.IsA .stmt ∧ t.Placed last ∧ t.NearestElse) ∧
    (∃ s', readStmt t = .ok s' ∧ s'.bare = s) ∧ ∀ rest, Splits cs pos t.leaves rest

/-- The text `cs`, wherever it stands, is derived as statements in turn and read as `ss`, places
aside, with or without a brace behind them. -/
def Stmt.AllReread (cs : List Char) (ss : List (Stmt Unit)) : Prop :=
  ∀ last pos, ∃ ts : List Tree, (∀ t ∈ ts, t.IsA .stmt ∧ t.Placed last ∧ t.NearestElse) ∧
    (∃ ss', readBlock ts = .ok ss' ∧ (∀ k, readBlock (ts ++ [.leaf k]) = .ok ss') ∧
      Stmt.allBare ss' = ss) ∧
    ∀ rest, Splits cs pos (Tree.leavesAll ts) rest

namespace Stmt

variable {ws cs ds fs : List Char} {e : Expr Unit} {s s' : Stmt Unit} {ss : List (Stmt Unit)}

lemma AllReread.blank (ws : List Char) (hws : ws.all isBlank = true) : AllReread ws [] := by
  intro last pos
  refine ⟨[], by simp, ⟨[], ?_, fun k => ?_, rfl⟩,
    fun rest => .blanks (List.all_eq_true.mp hws) pos⟩
  · rw [readBlock]
  · rw [List.nil_append, readBlock]

/-- A statement behind blanks and before others. -/
lemma AllReread.cons (ws : List Char) (hws : ws.all isBlank = true) (h : Rereads cs s)
    (hmore : AllReread ds ss) : AllReread (ws ++ (cs ++ ds)) (s :: ss) := by
  intro last pos
  obtain ⟨t, ht, ⟨s', hread, rfl⟩, hsplits⟩ := h last (pos.afterAll ws)
  obtain ⟨ts, hts, ⟨ss', hreads, hclosed, rfl⟩, hsplits'⟩ :=
    hmore last ((pos.afterAll ws).afterAll cs)
  have hcons : ∀ {us : List Tree},
      readBlock us = .ok ss' → readBlock (t :: us) = .ok (s' :: ss') := by
    intro us hus
    obtain ⟨pos, vs, rfl, -⟩ := ht.1.node
    rw [readBlock, hread, ok_bind, hus]
    · rfl
    · rintro k ⟨⟩
  refine ⟨t :: ts, List.forall_mem_cons.mpr ⟨ht, hts⟩, ⟨s' :: ss', hcons hreads, fun k => ?_, rfl⟩,
    fun rest => ?_⟩
  · exact hcons (hclosed k)
  · simpa using (Splits.blanks (List.all_eq_true.mp hws) pos).append
      ((hsplits (ds ++ rest)).append (hsplits' rest))

/-- A tree below a statement. -/
lemma placed_stmt {last : Position} {p : Production} {ts : List Tree}
    (hp : Grammar.rule p ∈ [.rule .block, .rule .cond, .rule .decl, .rule .assign])
    (hderives : p.body.Derives ts) (helse : (Tree.root last p ts).ElseHere)
    (hbelow : ∀ t ∈ ts, t.Placed last ∧ t.NearestElse) :
    (Tree.root last .stmt [.root last p ts]).IsA .stmt ∧
      (Tree.root last .stmt [.root last p ts]).Placed last ∧
      (Tree.root last .stmt [.root last p ts]).NearestElse := by
  refine ⟨Tree.isA_root (.alt hp (Tree.isA_root hderives).derives), ?_, ?_⟩
  · exact Tree.placed_root (List.forall_mem_singleton.mpr
      (Tree.placed_root fun t ht => (hbelow t ht).1))
  · exact Tree.nearestElse_node.mpr ⟨trivial, List.forall_mem_singleton.mpr
      (Tree.nearestElse_node.mpr ⟨helse, fun t ht => (hbelow t ht).2⟩)⟩

/-- A brace, a parenthesis or a semicolon is a token whatever stands behind it. -/
lemma splits_punct {c : Char} (hc : c ∈ punctuation) (hpoint : c ≠ '.') (pos : Position)
    (rest : List Char) : Splits [c] pos [⟨.punct, String.ofList [c], pos⟩] rest :=
  .word (.punct hc) (fun d _ => by simp [TokenKind.joins, hpoint]) pos

/-- A word of the language before a blank. -/
lemma splits_keyword {w : List Char} (hw : String.ofList w ∈ keywords) (pos : Position)
    (rest : List Char) :
    Splits w pos [⟨.keyword, String.ofList w, pos⟩] (' ' :: rest) :=
  .word (.keyword hw) ((Behind.blank rest).apart .keyword w) pos

/-- A condition in parentheses behind `if`, and what stands behind it. -/
lemma splits_if {pos : Position} {ts us : List Token} {rest : List Char}
    (h : Splits cs ((((pos.after 'i').after 'f').after ' ').after '(') ts
      (')' :: ' ' :: (ds ++ rest)))
    (h' : Splits ds (((((((pos.after 'i').after 'f').after ' ').after '(').afterAll cs).after
      ')').after ' ') us rest) :
    Splits ('i' :: 'f' :: ' ' :: '(' :: (cs ++ ')' :: ' ' :: ds)) pos
      (⟨.keyword, "if", pos⟩ :: ⟨.punct, "(", ((pos.after 'i').after 'f').after ' '⟩ ::
        (ts ++ ⟨.punct, ")", ((((pos.after 'i').after 'f').after ' ').after '(').afterAll cs⟩ :: us))
      rest := by
  have hclosing : Splits (')' :: ' ' :: ds) _ (⟨.punct, ")", _⟩ :: us) rest :=
    (splits_punct (by decide) (by decide) _ _).append ((Splits.blank _).append h')
  have hopening : Splits ('(' :: (cs ++ ')' :: ' ' :: ds)) (((pos.after 'i').after 'f').after ' ')
      (⟨.punct, "(", _⟩ :: (ts ++ ⟨.punct, ")", _⟩ :: us)) rest :=
    (splits_punct (by decide) (by decide) _ _).append (h.append hclosing)
  exact (splits_keyword (w := ['i', 'f']) (by decide) pos _).append
    ((Splits.blank _).append hopening)

/-! ## Forms of statements

One lemma for each form of a statement, with its text written out as a list of characters.
-/

section Readings

variable {pos pos' : Position} {t u v : Tree} {e : Expr Position} {s s' : Stmt Position}

lemma readStmt_when {word opening closing : Tree} (ht : readExpr t = .ok e)
    (hu : readStmt u = .ok s) :
    readStmt (.node .stmt pos' [.node .cond pos [word, opening, t, closing, u]])
      = .ok (.when pos e s) := by
  rw [readStmt, readStmt, ht, ok_bind, hu]
  rfl

lemma readStmt_branch {word opening closing other : Tree} (ht : readExpr t = .ok e)
    (hu : readStmt u = .ok s) (hv : readStmt v = .ok s') :
    readStmt (.node .stmt pos' [.node .cond pos [word, opening, t, closing, u, other, v]])
      = .ok (.branch pos e s s') := by
  rw [readStmt, readStmt, ht, ok_bind, hu, ok_bind, hv]
  rfl

lemma readStmt_block {opening : Tree} {ts : List Tree} {ss : List (Stmt Position)}
    (h : readBlock ts = .ok ss) :
    readStmt (.node .stmt pos' [.node .block pos (opening :: ts)]) = .ok (.block pos ss) := by
  rw [readStmt, readStmt, h]
  rfl

lemma readStmt_assign {pos'' : Position} {root sign : Token} {parts : List Tree} {closing : Tree}
    (ht : readExpr t = .ok e) :
    readStmt (.node .stmt pos' [.node .assign pos [.node .access pos'' (.leaf root :: parts),
      .leaf sign, t, closing]])
      = .ok (.assign pos pos'' (readPath root parts) (AssignOp.ofSymbol sign.text) e) := by
  rw [readStmt, readStmt, ht]
  rfl

end Readings

/-- Statements in braces. -/
lemma Rereads.block (h : AllReread cs ss) : Rereads ('\x7b' :: (cs ++ ['\x7d'])) (.block () ss) := by
  intro last pos
  obtain ⟨ts, hts, ⟨ss', -, hclosed, rfl⟩, hsplits⟩ := h last (pos.after '\x7b')
  set closing : Token := ⟨.punct, "\x7d", (pos.after '\x7b').afterAll cs⟩
  refine ⟨.root last .stmt [.root last .block (.leaf ⟨.punct, "\x7b", pos⟩ ::
    (ts ++ [.leaf closing]))], placed_stmt (by simp) ?_ trivial ?_, ?_, ?_⟩
  · exact .seqCons (.literal (by rfl)) (.seqCons (.many_rule fun t ht => (hts t ht).1)
      (.seqCons (.literal (by rfl)) .seqNil))
  · rw [List.forall_mem_cons, List.forall_mem_append, List.forall_mem_singleton]
    exact ⟨⟨Tree.placed_token _, Tree.nearestElse_leaf _⟩, fun t ht => (hts t ht).2,
      Tree.placed_token _, Tree.nearestElse_leaf _⟩
  · exact ⟨_, readStmt_block (hclosed closing), by rw [Stmt.bare, Stmt.map, Stmt.allBare]⟩
  · intro rest
    have hopening := splits_punct (c := '\x7b') (by decide) (by decide) pos (cs ++ ['\x7d'] ++ rest)
    have hclosing := splits_punct (c := '\x7d') (by decide) (by decide)
      ((pos.after '\x7b').afterAll cs) rest
    have hwhole := hopening.append ((hsplits _).append hclosing)
    simpa [Tree.leaves_root, Tree.leavesAll_append, closing] using hwhole

/-- A condition with one branch. -/
lemma Rereads.when (he : Cellular.Rereads .expr cs e) (h : Rereads ds s) :
    Rereads ('i' :: 'f' :: ' ' :: '(' :: (cs ++ ')' :: ' ' :: ds)) (.when () e s) := by
  intro last pos
  set pos₁ := (((pos.after 'i').after 'f').after ' ').after '('
  set closing : Token := ⟨.punct, ")", pos₁.afterAll cs⟩
  obtain ⟨test, htest, htestPlaced, ⟨e', hreadTest, rfl⟩, hsplitsTest⟩ := he.tree last pos₁
  obtain ⟨t, ht, ⟨s', hread, rfl⟩, hsplits⟩ := h last (((pos₁.afterAll cs).after ')').after ' ')
  refine ⟨.root last .stmt [.root last .cond [.leaf ⟨.keyword, "if", pos⟩,
    .leaf ⟨.punct, "(", ((pos.after 'i').after 'f').after ' '⟩, test, .leaf closing, t]],
    placed_stmt (by simp) ?_ trivial ?_, ⟨_, readStmt_when hreadTest hread, ?_⟩, ?_⟩
  · exact .seqCons (.literal (by rfl)) (.seqCons (.literal (by rfl)) (.seqCons htest.derives
      (.seqCons (.literal (by rfl)) (.seqCons ht.1.derives (.seqCons .absent .seqNil)))))
  · simp [Tree.placed_token, Tree.nearestElse_leaf, htestPlaced, htest.nearestElse rfl, ht.2]
  · simp only [Stmt.bare, Stmt.map, Expr.bare]
  · intro rest
    simpa [Tree.leaves_root, closing] using splits_if (hsplitsTest _ (.closing _)) (hsplits rest)

/-- A condition with two branches, the first of which is not open. -/
lemma Rereads.branch (he : Cellular.Rereads .expr cs e) (h : Rereads ds s) (hopen : s.isOpen = false)
    (h' : Rereads fs s') :
    Rereads ('i' :: 'f' :: ' ' :: '(' ::
      (cs ++ ')' :: ' ' :: (ds ++ ' ' :: 'e' :: 'l' :: 's' :: 'e' :: ' ' :: fs)))
      (.branch () e s s') := by
  intro last pos
  set pos₁ := (((pos.after 'i').after 'f').after ' ').after '('
  set pos₂ := ((pos₁.afterAll cs).after ')').after ' '
  set closing : Token := ⟨.punct, ")", pos₁.afterAll cs⟩
  set other : Token := ⟨.keyword, "else", (pos₂.afterAll ds).after ' '⟩
  obtain ⟨test, htest, htestPlaced, ⟨e', hreadTest, rfl⟩, hsplitsTest⟩ := he.tree last pos₁
  obtain ⟨t, ht, ⟨u, hread, rfl⟩, hsplits⟩ := h last pos₂
  obtain ⟨t', ht', ⟨u', hread', rfl⟩, hsplits'⟩ :=
    h' last (((pos₂.afterAll ds).after ' ').afterAll ['e', 'l', 's', 'e', ' '])
  refine ⟨.root last .stmt [.root last .cond [.leaf ⟨.keyword, "if", pos⟩,
    .leaf ⟨.punct, "(", ((pos.after 'i').after 'f').after ' '⟩, test, .leaf closing, t, .leaf other,
    t']], placed_stmt (by simp) ?_ ?_ ?_, ⟨_, readStmt_branch hreadTest hread hread', ?_⟩, ?_⟩
  · exact .seqCons (.literal (by rfl)) (.seqCons (.literal (by rfl)) (.seqCons htest.derives
      (.seqCons (.literal (by rfl)) (.seqCons ht.1.derives (.seqCons (.present (.seqCons
        (.literal (by rfl)) (.seqCons ht'.1.derives .seqNil))) .seqNil)))))
  · have hsame := (nearestElse_of_readStmt.1 t ht.2.2 u hread).1
    rw [isOpen_bare, hsame] at hopen
    exact hopen
  · simp [Tree.placed_token, Tree.nearestElse_leaf, htestPlaced, htest.nearestElse rfl, ht.2, ht'.2]
  · simp only [Stmt.bare, Stmt.map, Expr.bare]
  · intro rest
    have hother : Splits ('e' :: 'l' :: 's' :: 'e' :: ' ' :: fs) ((pos₂.afterAll ds).after ' ')
        (other :: t'.leaves) rest :=
      (splits_keyword (w := ['e', 'l', 's', 'e']) (by decide) _ _).append
        ((Splits.blank _).append (hsplits' rest))
    have hbranches := (hsplits _).append ((Splits.blank _).append hother)
    simpa [Tree.leaves_root, closing, other] using
      splits_if (hsplitsTest _ (.closing _)) hbranches

/-- The operators of assignments are words that the grammar lists and the reader finds again. -/
lemma assignOp_known : ∀ op ∈ AssignOp.set :: AssignOp.arithmetic.map .update,
    Word .operator op.symbol.toList ∧
      op.symbol ∈ ["=", "+=", "-=", "*=", "/=", "%="] ∧ AssignOp.ofSymbol op.symbol = op := by
  have hscan : ∀ op ∈ AssignOp.set :: AssignOp.arithmetic.map .update,
      scan? op.symbol.toList = some (.token .operator, op.symbol.toList.length) := by
    decide +kernel
  have hsymbols : ∀ op ∈ AssignOp.set :: AssignOp.arithmetic.map .update,
      op.symbol ∈ ["=", "+=", "-=", "*=", "/=", "%="] ∧ AssignOp.ofSymbol op.symbol = op := by
    decide +kernel
  intro op hop
  exact ⟨word_of_scan?_length (hscan op hop), hsymbols op hop⟩

/-- An assignment. -/
lemma Rereads.assign (path : Path) (hpath : ∀ part ∈ path.parts, Word .ident part.toList)
    (op : AssignOp) (hop : op ∈ AssignOp.set :: AssignOp.arithmetic.map .update)
    (he : Cellular.Rereads .expr cs e) :
    Rereads (path.text.toList ++ ' ' :: (op.symbol.toList ++ ' ' :: (cs ++ [';'])))
      (.assign () () path op e) := by
  obtain ⟨hword, hsymbol, hofSymbol⟩ := assignOp_known op hop
  intro last pos
  set sign : Token := ⟨.operator, op.symbol, (pos.afterAll path.text.toList).after ' '⟩
  set pos₁ := (sign.pos.afterAll op.symbol.toList).after ' '
  set closing : Token := ⟨.punct, ";", pos₁.afterAll cs⟩
  obtain ⟨parts, hisA, hplaced, hread, hsplits⟩ := Path.exists_tree hpath last pos
  obtain ⟨t, ht, htPlaced, ⟨e', hreadValue, rfl⟩, hsplitsValue⟩ := he.tree last pos₁
  refine ⟨.root last .stmt [.root last .assign [.root last .access
    (.leaf ⟨.ident, path.root, pos⟩ :: parts), .leaf sign, t, .leaf closing]],
    placed_stmt (by simp) ?_ trivial ?_, ⟨_, readStmt_assign hreadValue, ?_⟩, ?_⟩
  · exact .seqCons hisA.derives (.seqCons (.oneOf hsymbol) (.seqCons ht.derives
      (.seqCons (.literal (by rfl)) .seqNil)))
  · simp [Tree.placed_token, Tree.nearestElse_leaf, hplaced, hisA.nearestElse rfl, htPlaced,
      ht.nearestElse rfl]
  · simp only [Stmt.bare, Stmt.map, Expr.bare, hread, sign, hofSymbol]
  · intro rest
    have hvalue := (hsplitsValue _ (.semicolon rest)).append
      (splits_punct (c := ';') (by decide) (by decide) (pos₁.afterAll cs) rest)
    have hwhole := (hsplits _ (.blank _)).append (Splits.spaced hword hvalue)
    simpa [Tree.leaves_root, sign, closing] using hwhole

end Stmt

/-! ## Programs -/

/-- **A whole text is read as the statements that it holds.** -/
theorem Program.exists_parse {src : String} {ss : List (Stmt Unit)}
    (h : Stmt.AllReread src.toList ss) :
    ∃ p, Program.parse src = .ok p ∧ Stmt.allBare p.body = ss := by
  set last : Token := ⟨.eof, "", Position.start.afterAll src.toList⟩
  obtain ⟨ts, hts, ⟨ss', hread, -, rfl⟩, hsplits⟩ := h last.pos .start
  set t := Tree.root last.pos .program ts
  have hlex : lex src.toList = .ok (t.leaves ++ [last]) := by
    rw [Tree.leaves_root]
    exact (hsplits []).lex_eq
  have hisA : t.IsA .program := Tree.isA_root (.many_rule fun t ht => (hts t ht).1)
  have hnearest : t.NearestElse := Tree.nearestElse_node.mpr ⟨trivial, fun t ht => (hts t ht).2.2⟩
  have hplaced : t.Placed last.pos := Tree.placed_root fun t ht => (hts t ht).2.1
  refine ⟨{ body := ss' }, (parseWith_eq_ok_iff (.inl rfl)).mpr ⟨t.leaves, last, t, hlex, rfl,
    ⟨hisA.derives, rfl⟩, hnearest, hplaced, ?_⟩, rfl⟩
  simp only [t, Tree.root, readProgram, hread, ok_bind]
  rfl

end Cellular
