import Cellular.Proofs.Source.Parsing

/-!
# Expressions read back

An expression is written with all its parentheses.  Reading what was written gives the expression
again, places aside.

* `Splits` says how a piece of a text is split into tokens, whatever stands behind it, and
  `Splits.append` puts pieces together.
* `Rereads` says of a piece of a text that it is derived from a rule and read as an expression.
* `Expr.WrittenAs.rereads`: so is the text of every expression that was written as words.
* `Expr.parse_text`: what is read from a text is read again from what is written.

A printed expression has parentheses around every operator.  Reading it therefore never has to
choose: an operand in parentheses is a rule of its own, and a chain has one operator.  What makes
the proof long is the lexer, which sees the pieces only when they are put together.  `Splits` takes
what stands behind a piece into account, and what is asked of the text behind is so little
(`Behind`) that every piece of a printed expression meets it.
-/

namespace Cellular

/-! ## Pieces of a text

A piece begins at a place and ends before a rest.  Pieces can be appended if the second one is the
front of what stands behind the first.
-/

/-- Puts tokens before those of a text that was split. -/
def Lexed.prepend (ts : List Token) (l : Lexed) : Lexed := { l with tokens := ts ++ l.tokens }

/-- The text `cs` at `pos` is split into the tokens `ts` where `rest` stands behind it. -/
def Splits (cs : List Char) (pos : Position) (ts : List Token) (rest : List Char) : Prop :=
  lexFrom (cs ++ rest) pos = (lexFrom rest (pos.afterAll cs)).prepend ts

namespace Splits

variable {cs ds rest : List Char} {ts us : List Token} {pos : Position}

lemma append (h₁ : Splits cs pos ts (ds ++ rest)) (h₂ : Splits ds (pos.afterAll cs) us rest) :
    Splits (cs ++ ds) pos (ts ++ us) rest := by
  rw [Splits] at h₁ h₂ ⊢
  rw [List.append_assoc, h₁, h₂, Position.afterAll_append]
  simp [Lexed.prepend]

lemma nil : Splits [] pos [] rest := by
  rw [Splits]
  rfl

lemma word {k : TokenKind} {w : List Char} (hw : Word k w) (h : Apart k w rest) (pos : Position) :
    Splits w pos [⟨k, String.ofList w, pos⟩] rest := by
  rw [Splits, lexFrom_word hw h]
  rfl

lemma blanks (hcs : ∀ c ∈ cs, isBlank c = true) (pos : Position) : Splits cs pos [] rest := by
  rw [Splits]
  exact lexFrom_blanks hcs rest pos

lemma blank (pos : Position) : Splits [' '] pos [] rest :=
  .blanks (List.forall_mem_singleton.mpr rfl) pos

/-- A whole text. -/
lemma lex_eq (h : Splits cs .start ts []) :
    lex cs = .ok (ts ++ [⟨.eof, "", Position.start.afterAll cs⟩]) := by
  rw [Splits, List.append_nil] at h
  rw [lex, h, lexFrom]
  rfl

end Splits

/-- What stands behind an operand that was written: a blank, a closing parenthesis, the end of an
assignment or nothing. -/
def Behind (rest : List Char) : Prop := ∀ c ∈ rest.head?, c = ' ' ∨ c = ')' ∨ c = ';'

lemma Behind.nil : Behind [] := by simp [Behind]

lemma Behind.blank (rest : List Char) : Behind (' ' :: rest) := by simp [Behind]

lemma Behind.closing (rest : List Char) : Behind (')' :: rest) := by simp [Behind]

lemma Behind.semicolon (rest : List Char) : Behind (';' :: rest) := by simp [Behind]

/-- Every word ends there. -/
lemma Behind.apart {rest : List Char} (h : Behind rest) (k : TokenKind) (w : List Char) :
    Apart k w rest := by
  intro c hc
  have hclass : isNamePart c = false ∧ Number.isDigit c = false ∧ c ≠ '.' ∧
      c ∉ ['=', '/', '*'] := by
    rcases h c hc with rfl | rfl | rfl <;> decide
  obtain ⟨hname, hdigit, hpoint, hoperator⟩ := hclass
  cases k <;> simp_all [TokenKind.joins]

/-- A text that starts with no blank and nothing that could be part of an operator. -/
def Fronted (cs : List Char) : Prop :=
  ∃ c more, cs = c :: more ∧ isBlank c = false ∧ c ∉ ['=', '/', '*']

lemma Fronted.append {cs : List Char} (h : Fronted cs) (ds : List Char) : Fronted (cs ++ ds) := by
  obtain ⟨c, more, rfl, hc⟩ := h
  exact ⟨c, more ++ ds, rfl, hc⟩

/-- An operator ends before it. -/
lemma Fronted.apart {cs : List Char} (h : Fronted cs) (w rest : List Char) :
    Apart .operator w (cs ++ rest) := by
  obtain ⟨c, more, rfl, -, hc⟩ := h
  rintro d ⟨⟩
  simpa [TokenKind.joins] using hc

/-- An operator between blanks, and what stands behind it. -/
lemma Splits.spaced {w cs : List Char} (hw : Word .operator w) {pos : Position} {ts : List Token}
    {rest : List Char} (h : Splits cs (((pos.after ' ').afterAll w).after ' ') ts rest) :
    Splits (' ' :: (w ++ ' ' :: cs)) pos (⟨.operator, String.ofList w, pos.after ' '⟩ :: ts)
      rest := by
  have hlast : Splits ([' '] ++ cs) ((pos.after ' ').afterAll w) ts rest := (Splits.blank _).append h
  have hword : Splits (w ++ ([' '] ++ cs)) (pos.after ' ')
      ([⟨.operator, String.ofList w, pos.after ' '⟩] ++ ts) rest :=
    (Splits.word hw ((Behind.blank (cs ++ rest)).apart .operator w) _).append hlast
  exact (Splits.blank pos).append hword

/-- A text in parentheses. -/
lemma Splits.parens {cs : List Char} {pos : Position} {ts : List Token} {rest : List Char}
    (h : Splits cs (pos.after '(') ts (')' :: rest)) :
    Splits ('(' :: (cs ++ [')'])) pos
      (⟨.punct, "(", pos⟩ :: (ts ++ [⟨.punct, ")", (pos.after '(').afterAll cs⟩])) rest := by
  have hopening : Splits ['('] pos [⟨.punct, "(", pos⟩] (cs ++ [')'] ++ rest) :=
    Splits.word (.punct (by decide)) (fun c _ => by simp [TokenKind.joins]) pos
  have hclosing : Splits [')'] ((pos.after '(').afterAll cs)
      [⟨.punct, ")", (pos.after '(').afterAll cs⟩] rest :=
    Splits.word (.punct (by decide)) (fun c _ => by simp [TokenKind.joins]) _
  exact hopening.append (h.append hclosing)

/-! ## Trees of a text

Trees are built with the places that the recogniser would give them.
-/

namespace Tree

/-- The tree of a rule at the place of its first token. -/
def root (last : Position) (p : Production) (ts : List Tree) : Tree :=
  .node p (((leavesAll ts).head?.map Token.pos).getD last) ts

variable {last : Position} {p : Production} {ts : List Tree}

lemma leaves_root : (root last p ts).leaves = leavesAll ts := leaves_node _ _ _

lemma isA_root (h : p.body.Derives ts) : (root last p ts).IsA p := ⟨rfl, h⟩

lemma placed_root (h : ∀ t ∈ ts, t.Placed last) : (root last p ts).Placed last :=
  everywhere_node.mpr ⟨rfl, h⟩

lemma placed_token (t : Token) : (Tree.leaf t).Placed last := by
  rw [Placed, Everywhere]
  trivial

/-- The tree of an operand without signs. -/
def operand (last : Position) (ts : List Tree) : Tree := root last .unary [root last .primary ts]

lemma leaves_operand : (operand last ts).leaves = leavesAll ts := by
  simp [operand, leaves_root]

lemma isA_operand (h : Production.primary.body.Derives ts) : (operand last ts).IsA .unary :=
  isA_root (.alt (g := .rule .primary) (by simp) (isA_root h).derives)

lemma placed_operand (h : ∀ t ∈ ts, t.Placed last) : (operand last ts).Placed last :=
  placed_root (List.forall_mem_singleton.mpr (placed_root h))

lemma readExpr_operand : readExpr (operand last ts) = readExpr (root last .primary ts) := by
  rw [operand, root, readExpr]

end Tree

/-- The same expression without its places. -/
def Expr.bare {α : Type} (e : Expr α) : Expr Unit := e.map fun _ => ()

lemma Expr.map_map {α β γ : Type} (f : α → β) (g : β → γ) (e : Expr α) :
    (e.map f).map g = e.map fun n => g (f n) := by
  induction e <;> simp_all only [Expr.map]

/-- The text `cs`, wherever it stands, is derived from the rule `p` and read as the expression `e`,
places aside. -/
structure Rereads (p : Production) (cs : List Char) (e : Expr Unit) : Prop where
  front : Fronted cs
  tree : ∀ last pos, ∃ t : Tree, t.IsA p ∧ t.Placed last ∧
    (∃ e', readExpr t = .ok e' ∧ e'.bare = e) ∧
    ∀ rest, Behind rest → Splits cs pos t.leaves rest

/-! ## Readings

What a reader makes of a tree that is given with all its children.
-/

section Readings

variable {pos : Position} {t u v : Tree} {e f g : Expr Position}

lemma readExpr_ternary {asks parts : Tree} (ht : readExpr t = .ok e) (hu : readExpr u = .ok f)
    (hv : readExpr v = .ok g) :
    readExpr (.node .expr pos [t, asks, u, parts, v]) = .ok (.ternary pos e f g) := by
  rw [readExpr, ht, hu, hv]
  rfl

/-- One operator between two operands. -/
lemma readExpr_binary {pos' : Position} {op : BinaryOp} (hop : op ∈ BinaryOp.known) {sign : Token}
    (hsign : BinaryOp.ofSymbol sign.text = op) (ht : readExpr t = .ok e)
    (hu : readExpr u = .ok f) :
    readExpr (.node .chain pos [t, .node .link pos' [.leaf sign, u]]) =
      .ok (.binary pos' op e f) := by
  have hclimb := Chain.climb_eq (c := .node pos' op (.operand e) (.operand f))
    ⟨trivial, trivial, trivial, trivial⟩ (BinaryOp.one_le_precedence op hop)
  rw [readExpr, ht, readLinks, hu, readLinks, hsign]
  simp only [ok_bind, pure, Except.pure]
  simp only [Chain.head, Chain.links, List.nil_append] at hclimb
  rw [readChain, hclimb]
  rfl

/-- A sign before an operand that has a value of its own. -/
lemma readExpr_unary {op : UnaryOp} {sign : Token} (hsign : UnaryOp.ofSymbol sign.text = op)
    (hisA : t.IsA .unary) (ht : readExpr t = .ok e) :
    readExpr (.node .unary pos [.leaf sign, t]) = .ok (.unary pos op e) := by
  -- the least integer behind a sign would have no value without it
  have hleast : readLeastInt? pos sign t = none := by
    rw [← Option.not_isSome_iff_eq_none, readLeastInt?_isSome_iff]
    rintro ⟨-, hleast⟩
    exact hleast.not_fits ((hisA.reads rfl).exists_ok_iff.mp ⟨e, ht⟩)
  rw [readExpr, hleast, ht, ← hsign]
  rfl

lemma readExpr_cast {pos' : Position} {target : Token} {opening closing : Tree}
    (ht : readExpr t = .ok e) :
    readExpr (.node .primary pos [.node .cast pos' [.leaf target, opening, t, closing]])
      = .ok (.cast pos (TypeName.ofText target.text) e) := by
  rw [readExpr, ht]
  rfl

end Readings

/-! ## Forms of expressions

One lemma for each form that an operand, a chain or an expression can have.  The forms are those of
the grammar, and there are more of them than constructors of expressions.
-/

/-- The symbols of the operators of the language are words that the grammar lists and the reader
finds again. -/
lemma BinaryOp.symbol_known : ∀ op ∈ BinaryOp.known, Word .operator op.symbol.toList ∧
    op.symbol ∈ ["||", "&&", "==", "!=", "<=", ">=", "<", ">", "+", "-", "*", "/", "%"] ∧
    BinaryOp.ofSymbol op.symbol = op := by
  have hscan : ∀ op ∈ BinaryOp.known, scan? op.symbol.toList =
      some (.token .operator, op.symbol.toList.length) := by
    decide +kernel
  have hsymbols : ∀ op ∈ BinaryOp.known,
      op.symbol ∈ ["||", "&&", "==", "!=", "<=", ">=", "<", ">", "+", "-", "*", "/", "%"] ∧
      BinaryOp.ofSymbol op.symbol = op := by
    decide
  intro op hop
  exact ⟨word_of_scan?_length (hscan op hop), hsymbols op hop⟩

lemma Grammar.Derives.oneOf {texts : List String} {t : Token} (h : t.text ∈ texts) :
    (Grammar.oneOf texts).Derives [.leaf t] :=
  .alt (List.mem_map_of_mem h) (.literal rfl)

/-- An operand is a chain without operators. -/
lemma Rereads.chain {cs : List Char} {e : Expr Unit} (h : Rereads .unary cs e) :
    Rereads .chain cs e := by
  refine ⟨h.front, fun last pos => ?_⟩
  obtain ⟨t, hisA, hplaced, ⟨e', hread, hbare⟩, hsplits⟩ := h.tree last pos
  refine ⟨.root last .chain [t], ?_, ?_, ⟨e', ?_, hbare⟩, ?_⟩
  · exact Tree.isA_root (.seqCons hisA.derives (.seqCons .manyNil .seqNil))
  · exact Tree.placed_root (List.forall_mem_singleton.mpr hplaced)
  · rw [Tree.root, readExpr, hread]
    simp [readLinks, readChain, Chain.toExpr]
  · intro rest hrest
    simpa [Tree.leaves_root] using hsplits rest hrest

/-- A chain is an expression. -/
lemma Rereads.expr {cs : List Char} {e : Expr Unit} (h : Rereads .chain cs e) :
    Rereads .expr cs e := by
  refine ⟨h.front, fun last pos => ?_⟩
  obtain ⟨t, hisA, hplaced, ⟨e', hread, hbare⟩, hsplits⟩ := h.tree last pos
  refine ⟨.root last .expr [t], ?_, ?_, ⟨e', ?_, hbare⟩, ?_⟩
  · exact Tree.isA_root (.seqCons hisA.derives (.seqCons .absent .seqNil))
  · exact Tree.placed_root (List.forall_mem_singleton.mpr hplaced)
  · rw [Tree.root, readExpr, hread]
  · intro rest hrest
    simpa [Tree.leaves_root] using hsplits rest hrest

/-- An expression in parentheses is an operand. -/
lemma Rereads.parens {cs : List Char} {e : Expr Unit} (h : Rereads .expr cs e) :
    Rereads .unary ('(' :: (cs ++ [')'])) e := by
  refine ⟨⟨'(', _, rfl, by decide, by decide⟩, fun last pos => ?_⟩
  obtain ⟨t, hisA, hplaced, ⟨e', hread, hbare⟩, hsplits⟩ := h.tree last (pos.after '(')
  refine ⟨.operand last [.leaf ⟨.punct, "(", pos⟩, t,
    .leaf ⟨.punct, ")", (pos.after '(').afterAll cs⟩], ?_, ?_, ⟨e', ?_, hbare⟩, ?_⟩
  · refine Tree.isA_operand
      (.alt (g := .seq [.literal "(", .rule .expr, .literal ")"]) (by simp) ?_)
    exact .seqCons (.literal (by rfl)) (.seqCons hisA.derives
      (.seqCons (.literal (by rfl)) .seqNil))
  · exact Tree.placed_operand (by simp [Tree.placed_token, hplaced])
  · rw [Tree.readExpr_operand, Tree.root, readExpr, hread]
  · intro rest hrest
    simpa [Tree.leaves_operand] using (hsplits _ (.closing rest)).parens

/-- Two results to choose from. -/
lemma Rereads.ternary {cs ds fs : List Char} {e f g : Expr Unit} (hc : Rereads .chain cs e)
    (hd : Rereads .expr ds f) (hf : Rereads .expr fs g) :
    Rereads .expr (cs ++ ' ' :: (['?'] ++ ' ' :: (ds ++ ' ' :: ([':'] ++ ' ' :: fs))))
      (.ternary () e f g) := by
  refine ⟨hc.front.append _, fun last pos => ?_⟩
  set pos₁ := (((pos.afterAll cs).after ' ').afterAll ['?']).after ' '
  set pos₂ := (((pos₁.afterAll ds).after ' ').afterAll [':']).after ' '
  obtain ⟨t, hisAt, hplacedt, ⟨e', hreadt, rfl⟩, hsplitst⟩ := hc.tree last pos
  obtain ⟨u, hisAu, hplacedu, ⟨f', hreadu, rfl⟩, hsplitsu⟩ := hd.tree last pos₁
  obtain ⟨v, hisAv, hplacedv, ⟨g', hreadv, rfl⟩, hsplitsv⟩ := hf.tree last pos₂
  refine ⟨.root last .expr [t, .leaf ⟨.operator, "?", (pos.afterAll cs).after ' '⟩, u,
    .leaf ⟨.operator, ":", (pos₁.afterAll ds).after ' '⟩, v], ?_, ?_, ?_, ?_⟩
  · exact Tree.isA_root (.seqCons hisAt.derives (.seqCons (.present (.seqCons (.literal (by rfl))
      (.seqCons hisAu.derives (.seqCons (.literal (by rfl)) (.seqCons hisAv.derives .seqNil)))))
        .seqNil))
  · exact Tree.placed_root (by simp [Tree.placed_token, hplacedt, hplacedu, hplacedv])
  · exact ⟨_, readExpr_ternary hreadt hreadu hreadv, rfl⟩
  · intro rest hrest
    have hlast := (hsplitsu _ (.blank _)).append
      (Splits.spaced (.short (by decide)) (hsplitsv rest hrest))
    have hwhole := (hsplitst _ (.blank _)).append
      (Splits.spaced (.short (by decide)) hlast)
    simpa [Tree.leaves_root] using hwhole

/-- An operator between two operands. -/
lemma Rereads.binary {op : BinaryOp} (hop : op ∈ BinaryOp.known) {cs ds : List Char}
    {e f : Expr Unit} (hc : Rereads .unary cs e) (hd : Rereads .unary ds f) :
    Rereads .chain (cs ++ ' ' :: (op.symbol.toList ++ ' ' :: ds)) (.binary () op e f) := by
  obtain ⟨hword, hsymbol, hofSymbol⟩ := BinaryOp.symbol_known op hop
  refine ⟨hc.front.append _, fun last pos => ?_⟩
  obtain ⟨t, hisAt, hplacedt, ⟨e', hreadt, rfl⟩, hsplitst⟩ := hc.tree last pos
  obtain ⟨u, hisAu, hplacedu, ⟨f', hreadu, rfl⟩, hsplitsu⟩ :=
    hd.tree last ((((pos.afterAll cs).after ' ').afterAll op.symbol.toList).after ' ')
  refine ⟨.root last .chain [t, .root last .link
    [.leaf ⟨.operator, op.symbol, (pos.afterAll cs).after ' '⟩, u]], ?_, ?_, ?_, ?_⟩
  · have hlink : (Tree.root last .link
        [.leaf ⟨.operator, op.symbol, (pos.afterAll cs).after ' '⟩, u]).IsA .link :=
      Tree.isA_root (.seqCons (.oneOf hsymbol) (.seqCons hisAu.derives .seqNil))
    exact Tree.isA_root (.seqCons hisAt.derives
      (.seqCons (.many_rule (List.forall_mem_singleton.mpr hlink)) .seqNil))
  · refine Tree.placed_root (List.forall_mem_cons.mpr ⟨hplacedt, List.forall_mem_singleton.mpr ?_⟩)
    exact Tree.placed_root (by simp [Tree.placed_token, hplacedu])
  · exact ⟨_, readExpr_binary hop hofSymbol hreadt hreadu, rfl⟩
  · intro rest hrest
    have hwhole := (hsplitst _ (.blank _)).append
      (Splits.spaced hword (hsplitsu rest hrest))
    simpa [Tree.leaves_root] using hwhole

/-- The signs are words that the grammar lists and the reader finds again. -/
lemma UnaryOp.symbol_known : ∀ op ∈ [UnaryOp.not, .neg], ∃ c ∈ shortOperators,
    op.symbol = String.ofList [c] ∧ op.symbol ∈ ["!", "-"] ∧ UnaryOp.ofSymbol op.symbol = op ∧
    isBlank c = false ∧ c ∉ ['=', '/', '*'] := by
  intro op hop
  simp only [List.mem_cons, List.not_mem_nil, or_false] at hop
  rcases hop with rfl | rfl
  · exact ⟨'!', by decide⟩
  · exact ⟨'-', by decide⟩

/-- A sign and what stands behind it. -/
lemma Splits.signed {c : Char} (hc : c ∈ shortOperators) {cs : List Char} (hfront : Fronted cs)
    {pos : Position} {ts : List Token} {rest : List Char} (h : Splits cs (pos.after c) ts rest) :
    Splits (c :: cs) pos (⟨.operator, String.ofList [c], pos⟩ :: ts) rest :=
  (Splits.word (.short hc) (hfront.apart _ _) pos).append h

/-- A sign before an operand. -/
lemma Rereads.unary {op : UnaryOp} (hop : op ∈ [.not, .neg]) {cs : List Char} {e : Expr Unit}
    (h : Rereads .unary cs e) : Rereads .unary (op.symbol.toList ++ cs) (.unary () op e) := by
  obtain ⟨c, hshort, hsymbol, hsign, hofSymbol, hclass⟩ := UnaryOp.symbol_known op hop
  have hlist : op.symbol.toList = [c] := by rw [hsymbol, String.toList_ofList]
  rw [hlist]
  refine ⟨⟨c, cs, rfl, hclass⟩, fun last pos => ?_⟩
  obtain ⟨t, hisA, hplaced, ⟨e', hread, rfl⟩, hsplits⟩ := h.tree last (pos.after c)
  refine ⟨.root last .unary [.leaf ⟨.operator, op.symbol, pos⟩, t], ?_, ?_, ?_, ?_⟩
  · exact Tree.isA_root (.alt (g := .seq [.oneOf ["!", "-"], .rule .unary]) (by simp)
      (.seqCons (.oneOf hsign) (.seqCons hisA.derives .seqNil)))
  · exact Tree.placed_root (by simp [Tree.placed_token, hplaced])
  · exact ⟨_, readExpr_unary hofSymbol hisA hread, rfl⟩
  · intro rest hrest
    simpa [Tree.leaves_root, hsymbol] using Splits.signed hshort h.front (hsplits rest hrest)

/-! ## Numbers and names

These are words with no parts.  The text of a number is printed as it was read, and leading zeros
stay.
-/

/-- Numbers, keywords and names start with no blank and no operator. -/
lemma Word.fronted {k : TokenKind} {w : List Char} (h : Word k w) (hoperator : k ≠ .operator)
    (hpunct : k ≠ .punct) : Fronted w := by
  have hpart : ∀ {c : Char} {cs : List Char}, isNamePart c = true → Fronted (c :: cs) := by
    intro c cs hc
    refine ⟨c, cs, rfl, isBlank_of_isNamePart hc, ?_⟩
    rw [List.mem_cons, List.mem_cons, List.mem_singleton, not_or, not_or]
    exact ⟨ne_of_isNamePart hc (by decide), ne_of_isNamePart hc (by decide),
      ne_of_isNamePart hc (by decide)⟩
  have hdigits : ∀ {ds : List Char} (cs : List Char), Digits ds → ds ≠ [] → Fronted (ds ++ cs) := by
    intro ds cs hds hne
    obtain ⟨d, ds, rfl⟩ := List.exists_cons_of_ne_nil hne
    exact hpart (isNamePart_of_isDigit (hds d List.mem_cons_self))
  cases h with
  | @point ds fs ex hds _ _ _ =>
      by_cases hne : ds = []
      · subst hne
        exact ⟨'.', _, rfl, by decide, by decide⟩
      · exact hdigits _ hds hne
  | exponent hds hne _ => exact hdigits _ hds hne
  | int hds hne => simpa using hdigits [] hds hne
  | keyword hkeyword =>
      obtain ⟨c, cs, rfl, hc, -⟩ := name_of_keyword hkeyword
      exact hpart (isNamePart_of_isNameStart hc)
  | ident hc _ _ => exact hpart (isNamePart_of_isNameStart hc)
  | long _ => exact absurd rfl hoperator
  | short _ => exact absurd rfl hoperator
  | punct _ => exact absurd rfl hpunct

/-- A single word that is an operand. -/
lemma Rereads.word {k : TokenKind} {text : String} {e : Expr Unit} (hword : Word k text.toList)
    (hoperator : k ≠ .operator) (hpunct : k ≠ .punct)
    (hderives : ∀ pos, Production.primary.body.Derives [.leaf ⟨k, text, pos⟩])
    (hread : ∀ pos pos', ∃ e', readExpr (.node .primary pos [.leaf ⟨k, text, pos'⟩]) = .ok e' ∧
      e'.bare = e) : Rereads .unary text.toList e := by
  refine ⟨hword.fronted hoperator hpunct, fun last pos => ?_⟩
  refine ⟨.operand last [.leaf ⟨k, text, pos⟩], Tree.isA_operand (hderives pos), ?_, ?_, ?_⟩
  · exact Tree.placed_operand (by simp [Tree.placed_token])
  · rw [Tree.readExpr_operand]
    exact hread _ pos
  · intro rest hrest
    simpa [Tree.leaves_operand] using Splits.word hword (hrest.apart _ _) pos

lemma Rereads.bool (v : Bool) :
    Rereads .unary (if v then "true" else "false").toList (.bool () v) := by
  have hkeyword : (if v then "true" else "false") ∈ keywords := by cases v <;> decide
  have htext : (if v then "true" else "false") ∈ ["true", "false"] := by cases v <;> decide
  have hvalue : decide ((if v then "true" else "false") = "true") = v := by cases v <;> decide
  generalize (if v then "true" else "false") = text at hkeyword htext hvalue ⊢
  refine .word (k := .keyword) (.keyword ?_) (by decide) (by decide) ?_ ?_
  · rwa [String.ofList_toList]
  · exact fun pos => .alt (g := .oneOf ["true", "false"]) (by simp) (.oneOf htext)
  · intro pos pos'
    rw [readExpr]
    exact ⟨_, rfl, by rw [Expr.bare, Expr.map, hvalue]⟩

lemma Rereads.float {text : String} {d : Number.Decimal} (hword : Word .float text.toList)
    (hd : Number.Decimal.parse? text.toList = some d)
    (hfinite : d.nearest Number.single ≠ Number.single.infinity false) :
    Rereads .unary text.toList (.float () d.toSingle text) := by
  refine .word hword (by decide) (by decide) ?_ ?_
  · exact fun pos => .alt (g := .kind .float) (by simp) (.kind rfl)
  · intro pos pos'
    rw [readExpr]
    simp only [readFloat, hd, if_neg hfinite]
    exact ⟨_, rfl, rfl⟩

lemma Rereads.int {text : String} (hword : Word .int text.toList)
    (hfits : Number.digitsValue text.toList ≤ maxInt) :
    Rereads .unary text.toList
      (.int () (Int32.ofNat (Number.digitsValue text.toList)) text) := by
  refine .word hword (by decide) (by decide) ?_ ?_
  · exact fun pos => .alt (g := .kind .int) (by simp) (.kind rfl)
  · intro pos pos'
    rw [readExpr]
    simp only [readInt, if_pos hfits]
    exact ⟨_, rfl, rfl⟩

/-- The least integer is read from a sign and the numeral behind it. -/
lemma Rereads.leastInt {text : String} (hword : Word .int text.toList)
    (hvalue : Number.digitsValue text.toList = maxInt + 1) :
    Rereads .unary ("-" ++ text).toList (.int () Int32.minValue ("-" ++ text)) := by
  have hlist : ("-" ++ text).toList = '-' :: text.toList := by simp
  rw [hlist]
  refine ⟨⟨'-', _, rfl, by decide, by decide⟩, fun last pos => ?_⟩
  refine ⟨.root last .unary [.leaf ⟨.operator, "-", pos⟩,
    .operand last [.leaf ⟨.int, text, pos.after '-'⟩]], ?_, ?_, ?_, ?_⟩
  · refine Tree.isA_root (.alt (g := .seq [.oneOf ["!", "-"], .rule .unary]) (by simp) ?_)
    exact .seqCons (.oneOf (by simp)) (.seqCons (Tree.isA_operand
      (.alt (g := .kind .int) (by simp) (.kind rfl))).derives .seqNil)
  · refine Tree.placed_root ?_
    simp [Tree.placed_token, Tree.placed_operand]
  · rw [Tree.root, readExpr, Tree.operand, Tree.root, Tree.root, readLeastInt?]
    simp only [hvalue, decide_true, Bool.and_self, if_true]
    exact ⟨_, rfl, rfl⟩
  · intro rest hrest
    have hnumeral := Splits.word hword (hrest.apart .int text.toList) (pos.after '-')
    have hwhole := Splits.signed (c := '-') (by decide) (hword.fronted (by decide) (by decide))
      hnumeral
    simpa [Tree.leaves_root, Tree.leaves_operand] using hwhole

/-- The names of the types are words that the grammar lists and the reader finds again. -/
lemma TypeName.text_known : ∀ target ∈ [TypeName.bool, .int, .float], target.text ∈ keywords ∧
    target.text ∈ ["int", "float", "bool"] ∧ TypeName.ofText target.text = target := by
  decide

/-- A type applied to an expression. -/
lemma Rereads.cast {target : TypeName} (htarget : target ∈ [.bool, .int, .float]) {cs : List Char}
    {e : Expr Unit} (h : Rereads .expr cs e) :
    Rereads .unary (target.text.toList ++ '(' :: (cs ++ [')'])) (.cast () target e) := by
  obtain ⟨hkeyword, htext, hofText⟩ := TypeName.text_known target htarget
  have hword : Word .keyword target.text.toList := .keyword (by rwa [String.ofList_toList])
  refine ⟨(hword.fronted (by decide) (by decide)).append _, fun last pos => ?_⟩
  set pos₁ := pos.afterAll target.text.toList
  obtain ⟨t, hisA, hplaced, ⟨e', hread, rfl⟩, hsplits⟩ := h.tree last (pos₁.after '(')
  refine ⟨.operand last [.root last .cast [.leaf ⟨.keyword, target.text, pos⟩,
    .leaf ⟨.punct, "(", pos₁⟩, t, .leaf ⟨.punct, ")", (pos₁.after '(').afterAll cs⟩]],
    ?_, ?_, ?_, ?_⟩
  · refine Tree.isA_operand (.alt (g := .rule .cast) (by simp) (Tree.isA_root ?_).derives)
    exact .seqCons (.oneOf htext) (.seqCons (.literal (by rfl)) (.seqCons hisA.derives
      (.seqCons (.literal (by rfl)) .seqNil)))
  · refine Tree.placed_operand (List.forall_mem_singleton.mpr (Tree.placed_root ?_))
    simp [Tree.placed_token, hplaced]
  · rw [Tree.readExpr_operand]
    refine ⟨_, readExpr_cast hread, ?_⟩
    rw [Expr.bare, Expr.map, hofText]
    rfl
  · intro rest hrest
    have hopening : Apart .keyword target.text.toList ('(' :: (cs ++ [')']) ++ rest) := by
      rintro c ⟨⟩
      simp only [TokenKind.joins]
      decide
    have hwhole := (Splits.word hword hopening pos).append (hsplits _ (.closing rest)).parens
    simpa [Tree.leaves_operand, Tree.leaves_root] using hwhole

/-- A point ends before a name. -/
lemma Word.apart_point {w : List Char} (h : Word .ident w) (rest : List Char) :
    Apart .punct ['.'] (w ++ rest) := by
  cases h with
  | ident hc _ _ =>
      rintro d ⟨⟩
      simp [TokenKind.joins, isDigit_of_isNameStart hc]

/-- A name ends before the next part of a dotted name. -/
lemma Behind.apart_parts {rest : List Char} (h : Behind rest) (names : List String)
    (w : List Char) : Apart .ident w ((names.flatMap fun n => '.' :: n.toList) ++ rest) := by
  cases names with
  | nil => exact h.apart .ident w
  | cons name names =>
      rintro c ⟨⟩
      simp only [TokenKind.joins]
      decide

/-- The parts of a dotted name behind the first one. -/
lemma exists_splits_parts {names : List String} (h : ∀ name ∈ names, Word .ident name.toList)
    (pos : Position) : ∃ parts : List (Token × Token),
      (∀ part ∈ parts, part.1.kind = .punct ∧ part.1.text = "." ∧ part.2.kind = .ident) ∧
      parts.map (fun part => part.2.text) = names ∧
      ∀ rest, Behind rest → Splits (names.flatMap fun name => '.' :: name.toList) pos
        (Tree.leavesAll (parts.flatMap fun part => [.leaf part.1, .leaf part.2])) rest := by
  induction names generalizing pos with
  | nil => exact ⟨[], by simp, rfl, fun rest _ => .nil⟩
  | cons name names ih =>
      obtain ⟨hname, hnames⟩ := List.forall_mem_cons.mp h
      obtain ⟨parts, hparts, hmap, hsplits⟩ := ih hnames ((pos.after '.').afterAll name.toList)
      refine ⟨(⟨.punct, ".", pos⟩, ⟨.ident, name, pos.after '.'⟩) :: parts, ?_, ?_, ?_⟩
      · exact List.forall_mem_cons.mpr ⟨⟨rfl, rfl, rfl⟩, hparts⟩
      · rw [List.map_cons, hmap]
      · intro rest hrest
        -- a name ends at the next point, and this point is no number with the name behind it
        have hpart := (Splits.word hname (hrest.apart_parts names name.toList)
          (pos.after '.')).append (hsplits rest hrest)
        have hpoint := hname.apart_point ((names.flatMap fun n => '.' :: n.toList) ++ rest)
        rw [← List.append_assoc] at hpoint
        have hwhole := (Splits.word (.punct (by decide)) hpoint pos).append hpart
        simpa using hwhole

/-- Points and names behind them. -/
lemma Grammar.Derives.many_parts {parts : List (Token × Token)}
    (h : ∀ part ∈ parts, part.1.text = "." ∧ part.2.kind = .ident) :
    (Grammar.many (.seq [.literal ".", .kind .ident])).Derives
      (parts.flatMap fun part => [.leaf part.1, .leaf part.2]) := by
  induction parts with
  | nil => exact .manyNil
  | cons part parts ih =>
      obtain ⟨⟨hpoint, hname⟩, hparts⟩ := List.forall_mem_cons.mp h
      exact .manyCons (.seqCons (.literal hpoint) (.seqCons (.kind hname) .seqNil)) (ih hparts)

/-- Texts with a separator are the first one and the others, each behind a separator. -/
lemma toList_intercalate (sep s : String) (ss : List String) :
    (sep.intercalate (s :: ss)).toList
      = s.toList ++ ss.flatMap fun t => sep.toList ++ t.toList := by
  induction ss generalizing s with
  | nil => simp
  | cons t ss ih =>
      rw [String.intercalate_cons_cons, String.toList_append, ih]
      simp

/-- A dotted name is its first part and the others, each behind its point. -/
lemma Path.toList_text (path : Path) :
    path.text.toList = path.root.toList ++ path.rest.flatMap fun name => '.' :: name.toList := by
  rw [Path.text, Path.parts, toList_intercalate]
  rfl

/-- The parts of a dotted name are words. -/
lemma Path.WrittenAs.words {path : Path} {pos : Position} {ts : List Token}
    (h : path.WrittenAs pos ts) (hlexical : ∀ t ∈ ts, t.Lexical) :
    ∀ part ∈ path.parts, Word .ident part.toList := by
  obtain ⟨hroot, hparts⟩ := h
  obtain ⟨hlexicalRoot, hlexicalParts⟩ := List.forall_mem_cons.mp hlexical
  refine List.forall_mem_cons.mpr ⟨hroot ▸ hlexicalRoot, ?_⟩
  refine List.forall_mem_map.mpr fun part hpart => ?_
  exact (hparts part hpart).2 ▸ hlexicalParts _ (List.mem_flatMap.mpr ⟨part, hpart, by simp⟩)

/-- The tree of a dotted name: its first part, and the others behind their points. -/
lemma Path.exists_tree {path : Path} (h : ∀ part ∈ path.parts, Word .ident part.toList)
    (last pos : Position) :
    ∃ parts : List Tree,
      (Tree.root last .access (.leaf ⟨.ident, path.root, pos⟩ :: parts)).IsA .access ∧
      (Tree.root last .access (.leaf ⟨.ident, path.root, pos⟩ :: parts)).Placed last ∧
      readPath ⟨.ident, path.root, pos⟩ parts = path ∧
      ∀ rest, Behind rest → Splits path.text.toList pos
        (⟨.ident, path.root, pos⟩ :: Tree.leavesAll parts) rest := by
  obtain ⟨hroot, hnames⟩ := List.forall_mem_cons.mp h
  obtain ⟨parts, hparts, hmap, hsplits⟩ :=
    exists_splits_parts hnames (pos.afterAll path.root.toList)
  have hpoints : ∀ part ∈ parts, part.1.kind ≠ .ident := by
    intro part hpart
    rw [(hparts part hpart).1]
    decide
  refine ⟨parts.flatMap fun part => [.leaf part.1, .leaf part.2], Tree.isA_root ?_,
    Tree.placed_root ?_, ?_, ?_⟩
  · rw [← List.append_nil (parts.flatMap _)]
    exact .seqCons (.kind (by rfl)) (.seqCons (.many_parts fun part hpart => (hparts part hpart).2)
      .seqNil)
  · refine List.forall_mem_cons.mpr ⟨Tree.placed_token _, List.forall_mem_flatMap.mpr ?_⟩
    simp [Tree.placed_token]
  · rw [readPath_parts _ hpoints fun part hpart => (hparts part hpart).2.2, hmap]
  · intro rest hrest
    have hwhole := (Splits.word hroot (hrest.apart_parts path.rest _) pos).append
      (hsplits rest hrest)
    simpa [Path.toList_text] using hwhole

/-- A dotted name starts with a name. -/
lemma Path.fronted {path : Path} (h : ∀ part ∈ path.parts, Word .ident part.toList) :
    Fronted path.text.toList := by
  rw [Path.toList_text]
  exact ((List.forall_mem_cons.mp h).1.fronted (by decide) (by decide)).append _

/-- A dotted name. -/
lemma Rereads.access {path : Path} (h : ∀ part ∈ path.parts, Word .ident part.toList) :
    Rereads .unary path.text.toList (.access () path) := by
  refine ⟨Path.fronted h, fun last pos => ?_⟩
  obtain ⟨parts, hisA, hplaced, hread, hsplits⟩ := Path.exists_tree h last pos
  refine ⟨.operand last [.root last .access (.leaf ⟨.ident, path.root, pos⟩ :: parts)], ?_, ?_, ?_,
    ?_⟩
  · exact Tree.isA_operand (.alt (g := .rule .access) (by simp) hisA.derives)
  · exact Tree.placed_operand (List.forall_mem_singleton.mpr hplaced)
  · rw [Tree.readExpr_operand, Tree.root, Tree.root, readExpr, hread]
    exact ⟨_, rfl, rfl⟩
  · intro rest hrest
    simpa [Tree.leaves_operand, Tree.leaves_root] using hsplits rest hrest

/-! ## Expressions

The hypothesis is that the expression was once written as words, which everything that is read
satisfies.
-/

/-- **The text of an expression is read as the expression**, if it was itself written as words. -/
lemma Expr.WrittenAs.rereads {e : Expr Position} {ts : List Token} (h : e.WrittenAs ts)
    (hlexical : ∀ t ∈ ts, t.Lexical) : Rereads .unary e.text.toList e.bare := by
  -- operands are written with their own parentheses, so all of them are read again as operands
  induction h with
  | ternary _ _ _ _ _ _ ihtest ihyes ihno =>
      simp only [List.forall_mem_append, List.forall_mem_cons] at hlexical
      obtain ⟨htest, -, hyes, -, hno⟩ := hlexical
      have hwhole := ((ihtest htest).chain.ternary (ihyes hyes).chain.expr
        (ihno hno).chain.expr).parens
      simpa [Expr.text, Expr.bare, Expr.map] using hwhole
  | binary _ hop _ _ ihleft ihright =>
      simp only [List.forall_mem_append, List.forall_mem_cons] at hlexical
      obtain ⟨hleft, -, hright⟩ := hlexical
      have hwhole := (Rereads.binary hop (ihleft hleft) (ihright hright)).expr.parens
      simpa [Expr.text, Expr.bare, Expr.map] using hwhole
  | unary hop _ _ ih =>
      have hwhole := (Rereads.unary hop (ih (List.forall_mem_cons.mp hlexical).2)).chain.expr.parens
      simpa [Expr.text, Expr.bare, Expr.map] using hwhole
  | cast htarget _ _ _ _ ih =>
      simp only [List.forall_mem_append, List.forall_mem_cons] at hlexical
      have hwhole := Rereads.cast htarget (ih hlexical.2.2.1).chain.expr
      simpa [Expr.text, Expr.bare, Expr.map] using hwhole
  | @int t hkind hfits =>
      have hword : t.Lexical := hlexical t List.mem_cons_self
      rw [Token.Lexical, hkind] at hword
      exact .int hword hfits
  | @leastInt _ t _ hkind hvalue =>
      have hword : t.Lexical := hlexical t (by simp)
      rw [Token.Lexical, hkind] at hword
      exact .leastInt hword hvalue
  | @float t _ hkind hd hfinite =>
      have hword : t.Lexical := hlexical t List.mem_cons_self
      rw [Token.Lexical, hkind] at hword
      exact .float hword hd hfinite
  | @bool _ v _ => exact .bool v
  | access hpath => exact .access (hpath.words hlexical)
  | parens _ _ _ ih =>
      simp only [List.forall_mem_append, List.forall_mem_cons] at hlexical
      exact ih hlexical.2.1

/-- A whole text that is read as an expression. -/
lemma Rereads.parse {src : String} {e : Expr Unit} (h : Rereads .expr src.toList e) :
    ∃ e', Expr.parse src = .ok e' ∧ e'.bare = e := by
  set last : Token := ⟨.eof, "", Position.start.afterAll src.toList⟩
  obtain ⟨t, hisA, hplaced, ⟨e', hread, hbare⟩, hsplits⟩ := h.tree last.pos .start
  have hlex : lex src.toList = .ok (t.leaves ++ [last]) := (hsplits [] .nil).lex_eq
  exact ⟨e', (parseWith_eq_ok_iff (.inr rfl)).mpr ⟨t.leaves, last, t, hlex, rfl,
    ⟨hisA.derives, rfl⟩, hisA.nearestElse rfl, hplaced, hread⟩, hbare⟩

/-- **What is read from a text is read again from what is written**, places aside. -/
theorem Expr.parse_text {src : String} {e : Expr Position} (h : Expr.parse src = .ok e) :
    ∃ e', Expr.parse e.text = .ok e' ∧ e'.bare = e.bare := by
  obtain ⟨tokens, last, hlex, -, hwritten⟩ := Expr.writtenAs_of_parse h
  exact (hwritten.rereads (lex_append_ok hlex).1).chain.expr.parse

/-- The least integer behind signs, in a cast and beside an operator, and zeros before a number. -/
theorem Expr.parse_text_signs :
    ∃ e e', Expr.parse "!-2147483648 - -int(-002147483648) * 007" = .ok e ∧
      e.text = "((!-2147483648) - ((-int(-002147483648)) * 007))" ∧
      Expr.parse e.text = .ok e' ∧ e'.bare = e.bare := by
  obtain ⟨e, hparse, htext⟩ :
      ∃ e, Expr.parse "!-2147483648 - -int(-002147483648) * 007" = .ok e ∧
        e.text = "((!-2147483648) - ((-int(-002147483648)) * 007))" :=
    exists_ok_of_toOption (by decide +kernel)
  obtain ⟨e', hagain, hbare⟩ := Expr.parse_text hparse
  exact ⟨e, e', hparse, htext, hagain, hbare⟩

end Cellular
