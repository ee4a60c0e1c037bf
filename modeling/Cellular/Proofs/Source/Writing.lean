import Cellular.Proofs.Source.Literals
import Cellular.Proofs.Source.Prediction
import Cellular.Proofs.Source.Spelling

/-!
# What a rule is written as

A rule holds no punctuation, but it can be said which tokens it may be written as, and with them
what its nodes must hold: values, operators, names and places.  Parentheses may stand around every
operand, so how operators nest is not said here.

* `Expr.WrittenAs` and `Stmt.WrittenAs` relate trees of the rule language to their tokens.
* `Tree.Faithful` is what a derivation owes to its text: places, and tokens that are words.
* `Tree.IsA.expr_writtenAs` and `Tree.IsA.stmt_writtenAs`: what is read from a derivation is written
  as its tokens, so reading loses nothing, adds nothing and keeps the order.

The relation between trees and tokens is looser than a printer and looser than a parser.  It allows
parentheses around any operand, and does not say how operators nest; what it fixes is the order of
all operators and operands, their values, and their places.  Both directions of reading and writing
go through it.  From a derivation it is proved by an induction on trees; afterwards, spelling, words
and anchors of a tree are each an induction on the relation, and no proof about them returns to the
grammar.
-/

namespace Cellular

open Number (Decimal)

/-- The first of some tokens stands at `pos`. -/
def StartsAt (ts : List Token) (pos : Position) : Prop := ts.head?.map Token.pos = some pos

/-- A dotted name at a place and its tokens. -/
inductive Path.WrittenAs : Path → Position → List Token → Prop where
  | mk {root : Token} {parts : List (Token × Token)} (hroot : root.kind = .ident)
      (hparts : ∀ part ∈ parts, part.1.text = "." ∧ part.2.kind = .ident) :
      Path.WrittenAs { root := root.text, rest := parts.map fun part => part.2.text } root.pos
        (root :: parts.flatMap fun part => [part.1, part.2])

/-- An expression and tokens that it may be written as. -/
inductive Expr.WrittenAs : Expr Position → List Token → Prop where
  | ternary {test yes no : Expr Position} {pos : Position} {asks parts : Token}
      {ts us vs : List Token} (htest : test.WrittenAs ts) (hasks : asks.text = "?")
      (hyes : yes.WrittenAs us) (hparts : parts.text = ":") (hno : no.WrittenAs vs)
      (hpos : StartsAt ts pos) :
      Expr.WrittenAs (.ternary pos test yes no) (ts ++ asks :: (us ++ parts :: vs))
  /-- The place is that of the operator. -/
  | binary {left right : Expr Position} {op : BinaryOp} {sign : Token} {ts us : List Token}
      (hleft : left.WrittenAs ts) (hop : op ∈ BinaryOp.known) (hsign : sign.text = op.symbol)
      (hright : right.WrittenAs us) :
      Expr.WrittenAs (.binary sign.pos op left right) (ts ++ sign :: us)
  | unary {operand : Expr Position} {op : UnaryOp} {sign : Token} {ts : List Token}
      (hop : op ∈ [.not, .neg]) (hsign : sign.text = op.symbol) (hoperand : operand.WrittenAs ts) :
      Expr.WrittenAs (.unary sign.pos op operand) (sign :: ts)
  | cast {operand : Expr Position} {target : TypeName} {name opening closing : Token}
      {ts : List Token} (htarget : target ∈ [.bool, .int, .float]) (hname : name.text = target.text)
      (hopening : opening.text = "(") (hoperand : operand.WrittenAs ts)
      (hclosing : closing.text = ")") :
      Expr.WrittenAs (.cast name.pos target operand) (name :: opening :: (ts ++ [closing]))
  | int {t : Token} (hkind : t.kind = .int) (hfits : Number.digitsValue t.text.toList ≤ maxInt) :
      Expr.WrittenAs (.int t.pos (Int32.ofNat (Number.digitsValue t.text.toList)) t.text) [t]
  /-- The least integer keeps its sign. -/
  | leastInt {sign t : Token} (hsign : sign.text = "-") (hkind : t.kind = .int)
      (hvalue : Number.digitsValue t.text.toList = maxInt + 1) :
      Expr.WrittenAs (.int sign.pos Int32.minValue ("-" ++ t.text)) [sign, t]
  | float {t : Token} {d : Decimal} (hkind : t.kind = .float)
      (hd : Decimal.parse? t.text.toList = some d)
      (hfinite : d.nearest Number.single ≠ Number.single.infinity false) :
      Expr.WrittenAs (.float t.pos d.toSingle t.text) [t]
  | bool {t : Token} {v : Bool} (htext : t.text = if v then "true" else "false") :
      Expr.WrittenAs (.bool t.pos v) [t]
  | access {path : Path} {pos : Position} {ts : List Token} (hpath : path.WrittenAs pos ts) :
      Expr.WrittenAs (.access pos path) ts
  /-- Parentheses leave no trace. -/
  | parens {e : Expr Position} {opening closing : Token} {ts : List Token}
      (hopening : opening.text = "(") (he : e.WrittenAs ts) (hclosing : closing.text = ")") :
      Expr.WrittenAs e (opening :: (ts ++ [closing]))

mutual

/-- A statement and the tokens that it is written as. -/
inductive Stmt.WrittenAs : Stmt Position → List Token → Prop where
  | block {body : List (Stmt Position)} {opening closing : Token} {ts : List Token}
      (hopening : opening.text = "\x7b") (hbody : Stmt.AllWrittenAs body ts)
      (hclosing : closing.text = "\x7d") :
      Stmt.WrittenAs (.block opening.pos body) (opening :: (ts ++ [closing]))
  | declare {target : TypeName} {type name closing : Token}
      (htarget : target ∈ [.bool, .int, .float]) (htype : type.text = target.text)
      (hname : name.kind = .ident) (hclosing : closing.text = ";") :
      Stmt.WrittenAs (.declare type.pos target name.text none) [type, name, closing]
  | initialise {target : TypeName} {init : Expr Position} {type name sign closing : Token}
      {ts : List Token} (htarget : target ∈ [.bool, .int, .float]) (htype : type.text = target.text)
      (hname : name.kind = .ident) (hsign : sign.text = "=") (hinit : init.WrittenAs ts)
      (hclosing : closing.text = ";") :
      Stmt.WrittenAs (.declare type.pos target name.text (some init))
        (type :: name :: sign :: (ts ++ [closing]))
  | assign {target : Path} {op : AssignOp} {value : Expr Position} {pos : Position}
      {sign closing : Token} {ts us : List Token} (htarget : target.WrittenAs pos ts)
      (hop : op.Spelled) (hsign : sign.text = op.symbol) (hvalue : value.WrittenAs us)
      (hclosing : closing.text = ";") :
      Stmt.WrittenAs (.assign pos pos target op value) (ts ++ sign :: (us ++ [closing]))
  | when {test : Expr Position} {body : Stmt Position} {word opening closing : Token}
      {ts us : List Token} (hword : word.text = "if") (hopening : opening.text = "(")
      (htest : test.WrittenAs ts) (hclosing : closing.text = ")") (hbody : body.WrittenAs us) :
      Stmt.WrittenAs (.when word.pos test body) (word :: opening :: (ts ++ closing :: us))
  | branch {test : Expr Position} {yes no : Stmt Position} {word opening closing other : Token}
      {ts us vs : List Token} (hword : word.text = "if") (hopening : opening.text = "(")
      (htest : test.WrittenAs ts) (hclosing : closing.text = ")") (hyes : yes.WrittenAs us)
      (hother : other.text = "else") (hno : no.WrittenAs vs) :
      Stmt.WrittenAs (.branch word.pos test yes no)
        (word :: opening :: (ts ++ closing :: (us ++ other :: vs)))

/-- Statements in a row and their tokens. -/
inductive Stmt.AllWrittenAs : List (Stmt Position) → List Token → Prop where
  | nil : Stmt.AllWrittenAs [] []
  | cons {s : Stmt Position} {ss : List (Stmt Position)} {ts us : List Token}
      (hs : s.WrittenAs ts) (hss : Stmt.AllWrittenAs ss us) : Stmt.AllWrittenAs (s :: ss) (ts ++ us)

end

/-- Nothing is written as no tokens. -/
lemma Expr.WrittenAs.ne_nil {e : Expr Position} {ts : List Token} (h : e.WrittenAs ts) :
    ts ≠ [] := by
  cases h with
  | access hpath => cases hpath; simp
  | _ => simp

/-- What is written as tokens is spelled. -/
lemma Expr.WrittenAs.spelled {e : Expr Position} {ts : List Token} (h : e.WrittenAs ts) :
    e.Spelled := by
  induction h with
  | ternary _ _ _ _ _ _ ihtest ihyes ihno => exact ⟨ihtest, ihyes, ihno⟩
  | binary _ _ _ _ ihleft ihright => exact ⟨ihleft, ihright⟩
  | unary _ _ _ ih => exact ih
  | cast _ _ _ _ _ ih => exact ih
  | float _ hd _ => exact ⟨_, hd, rfl⟩
  | parens _ _ _ ih => exact ih
  | int | leastInt | bool | access => trivial

mutual

/-- What is written as tokens uses operators of the language only. -/
theorem Stmt.WrittenAs.spelled {s : Stmt Position} {ts : List Token} :
    Stmt.WrittenAs s ts → s.Spelled
  | .block _ hbody _ => by
      rw [Stmt.Spelled]
      exact hbody.spelled
  | .declare _ _ _ _ => by simp [Stmt.Spelled]
  | .initialise _ _ _ _ hinit _ => by simpa [Stmt.Spelled] using hinit.spelled
  | .assign _ hop _ hvalue _ => by
      rw [Stmt.Spelled]
      exact ⟨hop, hvalue.spelled⟩
  | .when _ _ htest _ hbody => by
      rw [Stmt.Spelled]
      exact ⟨htest.spelled, hbody.spelled⟩
  | .branch _ _ htest _ hyes _ hno => by
      rw [Stmt.Spelled]
      exact ⟨htest.spelled, hyes.spelled, hno.spelled⟩

/-- The same for statements in turn. -/
theorem Stmt.AllWrittenAs.spelled {ss : List (Stmt Position)} {ts : List Token} :
    Stmt.AllWrittenAs ss ts → Stmt.AllSpelled ss
  | .nil => by
      rw [Stmt.AllSpelled]
      trivial
  | .cons hs hss => by
      rw [Stmt.AllSpelled]
      exact ⟨hs.spelled, hss.spelled⟩

end

/-! ## Derivations of a text

A derivation from the grammar may carry any places.  The recogniser gives the right ones.
-/

/-- What a derivation owes to its text: every rule carries the place of its first token, and the
tokens are words. -/
structure Tree.Faithful (last : Position) (t : Tree) : Prop where
  placed : t.Placed last
  lexical : ∀ k ∈ t.leaves, k.Lexical

namespace Tree.Faithful

variable {last pos : Position} {p : Production} {t : Tree} {ts : List Tree}

lemma child (h : (Tree.node p pos ts).Faithful last) (ht : t ∈ ts) : t.Faithful last :=
  ⟨(everywhere_node.mp h.placed).2 t ht,
    fun k hk => h.lexical k (by rw [leaves_node]; exact mem_leavesAll ht hk)⟩

/-- A rule with tokens carries the place of the first one. -/
lemma pos_eq {k : Token} (h : (Tree.node p pos ts).Faithful last)
    (hk : (leavesAll ts).head? = some k) : pos = k.pos := by
  have hhere : pos = ((leavesAll ts).head?.map Token.pos).getD last :=
    (everywhere_node.mp h.placed).1
  rw [hhere, hk]
  rfl

lemma pos_eq_leaf {k : Token} (h : (Tree.node p pos (.leaf k :: ts)).Faithful last) :
    pos = k.pos :=
  h.pos_eq (by simp)

/-- So it stands where its first part starts. -/
lemma startsAt (h : (Tree.node p pos (t :: ts)).Faithful last) (hne : t.leaves ≠ []) :
    StartsAt t.leaves pos := by
  obtain ⟨k, ks, hks⟩ := List.exists_cons_of_ne_nil hne
  rw [h.pos_eq (k := k) (by simp [hks]), hks]
  rfl

end Tree.Faithful

/-! ## Expressions

A chain is read as a tree by climbing, which keeps the order of operands and operators.  So its
tokens are those of the flattened tree.
-/

/-- The operators and types of the grammar have the symbols that they are read from. -/
lemma BinaryOp.symbol_ofSymbol : ∀ s ∈
    ["||", "&&", "==", "!=", "<=", ">=", "<", ">", "+", "-", "*", "/", "%"],
    (BinaryOp.ofSymbol s).symbol = s := by
  decide

lemma UnaryOp.ofSymbol_known : ∀ s ∈ ["!", "-"],
    UnaryOp.ofSymbol s ∈ [UnaryOp.not, .neg] ∧ (UnaryOp.ofSymbol s).symbol = s := by
  decide

lemma TypeName.ofText_known : ∀ s ∈ ["bool", "int", "float"],
    TypeName.ofText s ∈ [TypeName.bool, .int, .float] ∧ (TypeName.ofText s).text = s := by
  decide

lemma AssignOp.ofSymbol_known : ∀ s ∈ ["=", "+=", "-=", "*=", "/=", "%="],
    (AssignOp.ofSymbol s).Spelled ∧ (AssignOp.ofSymbol s).symbol = s := by
  decide

/-- Operators with their operands and the tokens that they are written as. -/
inductive LinksWrittenAs : List (Link Position) → List Token → Prop where
  | nil : LinksWrittenAs [] []
  | cons {op : BinaryOp} {operand : Expr Position} {links : List (Link Position)} {sign : Token}
      {ts us : List Token} (hop : op ∈ BinaryOp.known) (hsign : sign.text = op.symbol)
      (hoperand : operand.WrittenAs ts) (hlinks : LinksWrittenAs links us) :
      LinksWrittenAs (⟨sign.pos, op, operand⟩ :: links) (sign :: (ts ++ us))

lemma LinksWrittenAs.of_append {ks ls : List (Link Position)} {ts : List Token}
    (h : LinksWrittenAs (ks ++ ls) ts) :
    ∃ us vs, ts = us ++ vs ∧ LinksWrittenAs ks us ∧ LinksWrittenAs ls vs := by
  induction ks generalizing ts with
  | nil => exact ⟨[], ts, rfl, .nil, h⟩
  | cons k ks ih =>
      cases h with
      | cons hop hsign hoperand hlinks =>
          obtain ⟨us, vs, rfl, hus, hvs⟩ := ih hlinks
          exact ⟨_, vs, by simp, .cons hop hsign hoperand hus, hvs⟩

/-- A chain is written as its first operand and its links, however they nest. -/
lemma Chain.writtenAs_toExpr {c : Chain Position} {ts us : List Token}
    (hhead : c.head.WrittenAs ts) (hlinks : LinksWrittenAs c.links us) :
    c.toExpr.WrittenAs (ts ++ us) := by
  induction c generalizing ts us with
  | operand e =>
      cases hlinks
      rw [List.append_nil]
      exact hhead
  | node n op l r ihl ihr =>
      rw [Chain.links] at hlinks
      obtain ⟨vs, ws, rfl, hl, hrest⟩ := hlinks.of_append
      cases hrest with
      | cons hop hsign hr hrs =>
          rw [← List.append_assoc]
          exact .binary (ihl hhead hl) hop hsign (ihr hr hrs)

lemma writtenAs_of_readChain {head e : Expr Position} {links : List (Link Position)}
    (h : readChain head links = .ok e) {ts us : List Token} (hhead : head.WrittenAs ts)
    (hlinks : LinksWrittenAs links us) : e.WrittenAs (ts ++ us) := by
  -- climbing keeps the first operand and the order of the links
  obtain ⟨hsame, used, hsplit, hused⟩ := Chain.climb_operands 1 (.operand head) links
  rw [readChain] at h
  split at h
  · rename_i c hc
    rw [hc] at hsame hsplit hused
    cases h
    refine Chain.writtenAs_toExpr (hsame ▸ hhead) ?_
    simpa [hsplit, hused, Chain.links] using hlinks
  · cases h

/-- What is read from a derivation of an expression is written as its tokens. -/
def Tree.ReadsWritten (last : Position) (t : Tree) : Prop :=
  ∀ p, p.isExpr = true → t.IsA p → t.Faithful last → ∀ e, readExpr t = .ok e →
    e.WrittenAs t.leaves

section Expressions

variable {last pos : Position} {ts : List Tree}

lemma linksWrittenAs_of_readLinks (hlinks : ∀ t ∈ ts, t.IsA .link)
    (ih : ∀ t ∈ ts, t.Everywhere (Tree.ReadsWritten last)) (hfaithful : ∀ t ∈ ts, t.Faithful last)
    {ks : List (Link Position)} (h : readLinks ts = .ok ks) :
    LinksWrittenAs ks (Tree.leavesAll ts) := by
  induction ts generalizing ks with
  | nil =>
      rw [readLinks] at h
      cases h
      exact .nil
  | cons t ts ihts =>
      obtain ⟨hlink, hmore⟩ := List.forall_mem_cons.mp hlinks
      obtain ⟨ht, hts⟩ := List.forall_mem_cons.mp ih
      obtain ⟨htfaithful, htsfaithful⟩ := List.forall_mem_cons.mp hfaithful
      obtain ⟨pos, us, rfl, hus⟩ := hlink.node
      obtain ⟨op, operand, rfl, hop, hoperand⟩ := hus.of_link
      simp only [readLinks, bind_eq_ok, pure_eq_ok] at h
      obtain ⟨e, he, ks', hks', rfl⟩ := h
      obtain rfl := htfaithful.pos_eq_leaf
      have hread := ((Tree.everywhere_node.mp ht).2 operand (by simp)).here .unary rfl hoperand
        (htfaithful.child (by simp)) e he
      simpa using LinksWrittenAs.cons (BinaryOp.ofSymbol_mem_known _ hop)
        (BinaryOp.symbol_ofSymbol _ hop).symm hread (ihts hmore hts htsfaithful hks')

lemma unary_writtenAs (h : Production.unary.body.Derives ts)
    (ih : ∀ t ∈ ts, t.Everywhere (Tree.ReadsWritten last))
    (hfaithful : (Tree.node .unary pos ts).Faithful last) {e : Expr Position}
    (hread : readExpr (.node .unary pos ts) = .ok e) : e.WrittenAs (Tree.leavesAll ts) := by
  rcases h.of_unary with ⟨op, operand, rfl, hop, hoperand⟩ | ⟨primary, rfl, hprimary⟩
  · obtain rfl := hfaithful.pos_eq_leaf
    rw [readExpr] at hread
    split at hread
    · rename_i e' hleast
      cases hread
      obtain ⟨pos₁, pos₂, k, rfl, hsign, hkind, hvalue, rfl⟩ := eq_of_readLeastInt? hleast
      simpa using Expr.WrittenAs.leastInt hsign hkind hvalue
    · simp only [bind_eq_ok, pure_eq_ok] at hread
      obtain ⟨e', he', rfl⟩ := hread
      obtain ⟨hknown, hsymbol⟩ := UnaryOp.ofSymbol_known _ hop
      have hbelow := (ih operand (by simp)).here .unary rfl hoperand (hfaithful.child (by simp))
        e' he'
      simpa using Expr.WrittenAs.unary hknown hsymbol.symm hbelow
  · rw [readExpr] at hread
    have hbelow := (ih primary (by simp)).here .primary rfl hprimary (hfaithful.child (by simp))
      e hread
    simpa using hbelow

lemma literal_writtenAs {t : Token}
    (ht : t.kind = .float ∨ t.kind = .int ∨ t.text ∈ ["true", "false"]) {e : Expr Position}
    (hread : readExpr (.node .primary t.pos [.leaf t]) = .ok e) : e.WrittenAs [t] := by
  rw [readExpr] at hread
  split at hread
  · rename_i hkind
    simp only [readFloat] at hread
    split at hread
    · rename_i d hd
      split_ifs at hread with hfinite
      cases hread
      exact .float hkind hd hfinite
    · cases hread
  · rename_i hkind
    simp only [readInt] at hread
    split_ifs at hread with hfits
    cases hread
    exact .int hkind hfits
  · rename_i hfloat hint
    cases hread
    refine .bool ?_
    have htext := (ht.resolve_left hfloat).resolve_left hint
    simp only [List.mem_cons, List.not_mem_nil, or_false] at htext
    rcases htext with h | h <;> simp [h]

/-- The parts of a dotted name are the names among its tokens. -/
lemma readPath_parts (root : Token) {parts : List (Token × Token)}
    (hdots : ∀ part ∈ parts, part.1.kind ≠ .ident) (hnames : ∀ part ∈ parts, part.2.kind = .ident) :
    readPath root (parts.flatMap fun part => [.leaf part.1, .leaf part.2]) =
      { root := root.text, rest := parts.map fun part => part.2.text } := by
  rw [readPath]
  congr 1
  induction parts with
  | nil => rfl
  | cons part parts ih =>
      obtain ⟨hdot, hdots⟩ := List.forall_mem_cons.mp hdots
      obtain ⟨hname, hnames⟩ := List.forall_mem_cons.mp hnames
      simp [hdot, hname, ih hdots hnames]

lemma Tree.leavesAll_parts (parts : List (Token × Token)) :
    Tree.leavesAll (parts.flatMap fun part => [.leaf part.1, .leaf part.2]) =
      parts.flatMap fun part => [part.1, part.2] := by
  induction parts with
  | nil => simp
  | cons part parts ih => simp [ih]

/-- A dotted name is read from its tokens. -/
lemma access_writtenAs (h : Production.access.body.Derives ts)
    (hfaithful : (Tree.node .access pos ts).Faithful last) :
    ∃ (root : Token) (more : List Tree), ts = .leaf root :: more ∧
      (readPath root more).WrittenAs pos (Tree.leavesAll ts) := by
  obtain ⟨root, parts, rfl, hroot, hparts⟩ := h.of_access
  obtain rfl := hfaithful.pos_eq_leaf
  refine ⟨root, _, rfl, ?_⟩
  -- the reader picks the names by their kind, so no dot may have it
  have hdots : ∀ part ∈ parts, part.1.kind ≠ .ident := by
    intro part hpart
    have hdot : part.1.Lexical := hfaithful.lexical part.1 <| by
      rw [Tree.leaves_node]
      refine Tree.mem_leavesAll_of_leaf (List.mem_cons_of_mem _ (List.mem_flatMap.mpr ?_))
      exact ⟨part, hpart, by simp⟩
    rw [hdot.kind_eq, (hparts part hpart).1]
    decide
  rw [readPath_parts root hdots fun part hpart => (hparts part hpart).2, Tree.leavesAll_cons,
    Tree.leavesAll_parts]
  exact .mk hroot hparts

lemma primary_writtenAs (h : Production.primary.body.Derives ts)
    (ih : ∀ t ∈ ts, t.Everywhere (Tree.ReadsWritten last))
    (hfaithful : (Tree.node .primary pos ts).Faithful last) {e : Expr Position}
    (hread : readExpr (.node .primary pos ts) = .ok e) : e.WrittenAs (Tree.leavesAll ts) := by
  rcases h.of_primary with ⟨t, rfl, ht⟩ | ⟨cast, rfl, hcast⟩ | ⟨access, rfl, haccess⟩ |
    ⟨opening, closing, inner, rfl, hopening, hclosing, hinner⟩
  · obtain rfl := hfaithful.pos_eq_leaf
    simpa using literal_writtenAs ht hread
  · obtain ⟨pos', us, rfl, hus⟩ := hcast.node
    obtain ⟨target, opening, closing, operand, rfl, htarget, hopening, hclosing, hoperand⟩ :=
      hus.of_cast
    obtain rfl := hfaithful.pos_eq (k := target) (by simp)
    simp only [readExpr, bind_eq_ok, pure_eq_ok] at hread
    obtain ⟨e', he', rfl⟩ := hread
    have hnames : ["int", "float", "bool"] ⊆ ["bool", "int", "float"] := by decide
    obtain ⟨hknown, htext⟩ := TypeName.ofText_known _ (hnames htarget)
    have hbelow := ((Tree.everywhere_node.mp (ih _ List.mem_cons_self)).2 operand (by simp)).here
      .expr rfl hoperand ((hfaithful.child List.mem_cons_self).child (by simp)) e' he'
    simpa using Expr.WrittenAs.cast hknown htext.symm hopening hbelow hclosing
  · obtain ⟨pos', us, rfl, hus⟩ := haccess.node
    obtain ⟨root, more, rfl, hpath⟩ := access_writtenAs hus (hfaithful.child List.mem_cons_self)
    rw [readExpr] at hread
    cases hread
    simpa using Expr.WrittenAs.access hpath
  · rw [readExpr] at hread
    have hbelow := (ih inner (by simp)).here .expr rfl hinner (hfaithful.child (by simp)) e hread
    simpa using Expr.WrittenAs.parens hopening hbelow hclosing

end Expressions

/-- **What is read from a derivation of an expression is written as its tokens.** -/
lemma Tree.readsWritten (last : Position) (t : Tree) (h : t.Derived) :
    t.Everywhere (Tree.ReadsWritten last) := by
  induction t using Tree.induction with
  | leaf t =>
      rw [Tree.Everywhere]
      intro p _ hleaf
      cases hleaf
  | node p pos ts ih =>
      replace ih : ∀ t ∈ ts, t.Everywhere (Tree.ReadsWritten last) := fun t ht =>
        ih t ht (h.children t ht)
      refine Tree.everywhere_node.mpr ⟨?_, ih⟩
      rintro q hq ⟨rfl, hts⟩ hfaithful e hread
      rw [Tree.leaves_node]
      cases p with
      | expr =>
          obtain ⟨chain, hchain, rfl | ⟨asks, parts, yes, no, hasks, hparts, hyes, hno, rfl⟩⟩ :=
            hts.of_expr
          · rw [readExpr] at hread
            simpa using (ih chain (by simp)).here .chain rfl hchain (hfaithful.child (by simp)) e
              hread
          · simp only [readExpr, bind_eq_ok, pure_eq_ok] at hread
            obtain ⟨test', htest', yes', hyes', no', hno', rfl⟩ := hread
            have htest := (ih chain (by simp)).here .chain rfl hchain (hfaithful.child (by simp))
              test' htest'
            have hyes := (ih yes (by simp)).here .expr rfl hyes (hfaithful.child (by simp))
              yes' hyes'
            have hno := (ih no (by simp)).here .expr rfl hno (hfaithful.child (by simp))
              no' hno'
            simpa using Expr.WrittenAs.ternary htest hasks hyes hparts hno
              (hfaithful.startsAt htest.ne_nil)
      | chain =>
          obtain ⟨head, links, rfl, hhead, hlinks⟩ := hts.of_chain
          obtain ⟨ihhead, ihlinks⟩ := List.forall_mem_cons.mp ih
          simp only [readExpr, bind_eq_ok] at hread
          obtain ⟨head', hhead', ks, hks, hchain⟩ := hread
          rw [Tree.leavesAll_cons]
          exact writtenAs_of_readChain hchain
            (ihhead.here .unary rfl hhead (hfaithful.child List.mem_cons_self) head' hhead')
            (linksWrittenAs_of_readLinks hlinks ihlinks
              (fun t ht => hfaithful.child (List.mem_cons_of_mem _ ht)) hks)
      | unary => exact unary_writtenAs hts ih hfaithful hread
      | primary => exact primary_writtenAs hts ih hfaithful hread
      | _ => cases hq

lemma Tree.IsA.expr_writtenAs {p : Production} (hp : p.isExpr = true) {t : Tree} (h : t.IsA p)
    {last : Position} (hfaithful : t.Faithful last) {e : Expr Position}
    (hread : readExpr t = .ok e) :
    e.WrittenAs t.leaves :=
  (t.readsWritten last h.derived).here p hp h hfaithful e hread

/-! ## Statements

Statements are written in one way only, apart from what stands in their expressions.
-/

/-- What is read from a derivation of a statement is written as its tokens. -/
def Tree.ReadsStmtWritten (last : Position) (t : Tree) : Prop :=
  ∀ p, p.isStmt = true → t.IsA p → t.Faithful last → ∀ s, readStmt t = .ok s →
    s.WrittenAs t.leaves

/-- Statements are read in turn, up to the brace that may close them. -/
lemma allWrittenAs_of_readBlock {last : Position} {ts : List Tree} (hstmts : ∀ t ∈ ts, t.IsA .stmt)
    (ih : ∀ t ∈ ts, t.ReadsStmtWritten last) (hfaithful : ∀ t ∈ ts, t.Faithful last)
    {closing : List Tree} (hclosing : closing = [] ∨ ∃ t, closing = [.leaf t])
    {ss : List (Stmt Position)} (h : readBlock (ts ++ closing) = .ok ss) :
    Stmt.AllWrittenAs ss (Tree.leavesAll ts) := by
  induction ts generalizing ss with
  | nil =>
      rw [Tree.leavesAll_nil]
      rcases hclosing with rfl | ⟨t, rfl⟩
      · rw [List.nil_append, readBlock] at h
        cases h
        exact .nil
      · rw [List.nil_append, readBlock] at h
        cases h
        exact .nil
  | cons t ts ihts =>
      obtain ⟨hstmt, hmore⟩ := List.forall_mem_cons.mp hstmts
      obtain ⟨ht, hts⟩ := List.forall_mem_cons.mp ih
      obtain ⟨htfaithful, htsfaithful⟩ := List.forall_mem_cons.mp hfaithful
      obtain ⟨pos, us, rfl, -⟩ := hstmt.node
      rw [List.cons_append, readBlock] at h
      · simp only [bind_eq_ok, pure_eq_ok] at h
        obtain ⟨s, hs, ss', hss', rfl⟩ := h
        rw [Tree.leavesAll_cons]
        exact .cons (ht .stmt rfl hstmt htfaithful s hs) (ihts hmore hts htsfaithful hss')
      · rintro t ⟨⟩

/-- **What is read from a derivation of a statement is written as its tokens.** -/
lemma Tree.readsStmtWritten (last : Position) (t : Tree) (h : t.Derived) :
    t.ReadsStmtWritten last := by
  induction t using Tree.induction with
  | leaf t =>
      intro p _ hleaf
      cases hleaf
  | node p pos ts ih =>
      replace ih : ∀ t ∈ ts, t.ReadsStmtWritten last := fun t ht => ih t ht (h.children t ht)
      rintro q hq ⟨rfl, hts⟩ hfaithful s hread
      rw [Tree.leaves_node]
      cases p with
      | stmt =>
          obtain ⟨inner, below, rfl, hbelow, hinner⟩ := hts.of_stmt_isStmt
          have hinnerfaithful : inner.Faithful last := hfaithful.child List.mem_cons_self
          rw [readStmt] at hread
          rw [Tree.leavesAll_cons, Tree.leavesAll_nil, List.append_nil]
          exact ih inner List.mem_cons_self below hbelow hinner hinnerfaithful s hread
      | block =>
          obtain ⟨opening, closing, body, rfl, hopening, hclosing, hbody⟩ := hts.of_block
          obtain rfl := hfaithful.pos_eq_leaf
          simp only [readStmt, bind_eq_ok, pure_eq_ok] at hread
          obtain ⟨body', hbody', rfl⟩ := hread
          have hwritten := allWrittenAs_of_readBlock hbody (fun t ht => ih t (by simp [ht]))
            (fun t ht => hfaithful.child (by simp [ht])) (.inr ⟨closing, rfl⟩) hbody'
          simpa using Stmt.WrittenAs.block hopening hwritten hclosing
      | cond =>
          obtain ⟨word, opening, closing, test, yes, hword, hopening, hclosing, htest, hyes, hts⟩ :=
            hts.of_cond
          rcases hts with rfl | ⟨other, no, hother, hno, rfl⟩
          · obtain rfl := hfaithful.pos_eq_leaf
            simp only [readStmt, bind_eq_ok, pure_eq_ok] at hread
            obtain ⟨test', htest', yes', hyes', rfl⟩ := hread
            have htest := htest.expr_writtenAs rfl (hfaithful.child (by simp)) htest'
            have hyes := ih yes (by simp) .stmt rfl hyes (hfaithful.child (by simp)) yes' hyes'
            simpa using Stmt.WrittenAs.when hword hopening htest hclosing hyes
          · obtain rfl := hfaithful.pos_eq_leaf
            simp only [readStmt, bind_eq_ok, pure_eq_ok] at hread
            obtain ⟨test', htest', yes', hyes', no', hno', rfl⟩ := hread
            have htest := htest.expr_writtenAs rfl (hfaithful.child (by simp)) htest'
            have hyes := ih yes (by simp) .stmt rfl hyes (hfaithful.child (by simp)) yes' hyes'
            have hno := ih no (by simp) .stmt rfl hno (hfaithful.child (by simp)) no' hno'
            simpa using Stmt.WrittenAs.branch hword hopening htest hclosing hyes hother hno
      | decl =>
          obtain ⟨type, name, closing, htype, hname, hclosing, hts⟩ := hts.of_decl
          obtain ⟨hknown, htext⟩ := TypeName.ofText_known _ htype
          rcases hts with rfl | ⟨sign, init, hsign, hinit, rfl⟩
          · obtain rfl := hfaithful.pos_eq_leaf
            rw [readStmt] at hread
            cases hread
            simpa using Stmt.WrittenAs.declare hknown htext.symm hname hclosing
          · obtain rfl := hfaithful.pos_eq_leaf
            simp only [readStmt, bind_eq_ok, pure_eq_ok] at hread
            obtain ⟨init', hinit', rfl⟩ := hread
            have hinit := hinit.expr_writtenAs rfl (hfaithful.child (by simp)) hinit'
            simpa using Stmt.WrittenAs.initialise hknown htext.symm hname hsign hinit hclosing
      | assign =>
          obtain ⟨op, closing, target, value, rfl, htarget, hop, hvalue, hclosing⟩ := hts.of_assign
          obtain ⟨targetPos, us, rfl, hus⟩ := htarget.node
          have htargetFaithful := hfaithful.child (t := .node .access targetPos us) (by simp)
          obtain ⟨root, more, rfl, hpath⟩ := access_writtenAs hus htargetFaithful
          simp only [readStmt, bind_eq_ok, pure_eq_ok] at hread
          obtain ⟨value', hvalue', rfl⟩ := hread
          have hvalue := hvalue.expr_writtenAs rfl (hfaithful.child (by simp)) hvalue'
          obtain ⟨hspelled, hsymbol⟩ := AssignOp.ofSymbol_known _ hop
          -- an assignment starts with its target
          obtain rfl : pos = targetPos := by
            rw [hfaithful.pos_eq (k := root) (by simp), htargetFaithful.pos_eq_leaf]
          simpa using Stmt.WrittenAs.assign hpath hspelled hsymbol.symm hvalue hclosing
      | _ => cases hq

lemma Tree.IsA.program_writtenAs {t : Tree} (h : t.IsA .program) {last : Position}
    (hfaithful : t.Faithful last) {program : Program Position}
    (hread : readProgram t = .ok program) : Stmt.AllWrittenAs program.body t.leaves := by
  obtain ⟨pos, ts, rfl, hts⟩ := h.node
  have hstmts := hts.of_many_rule
  simp only [readProgram, bind_eq_ok, pure_eq_ok] at hread
  obtain ⟨body, hbody, rfl⟩ := hread
  rw [Tree.leaves_node]
  refine allWrittenAs_of_readBlock hstmts (fun t ht => ?_) (fun t ht => hfaithful.child ht)
    (.inl rfl) (by rwa [List.append_nil])
  exact t.readsStmtWritten last (hstmts t ht).derived

end Cellular
