import Cellular.Source.Reader
import Cellular.Proofs.Rule.Climbing
import Cellular.Proofs.Source.Shape
import Cellular.Proofs.Success

/-!
# Reading fails only for literals out of range

A derivation has a meaning unless one of its numerals has none.  Every other failure of the reader
is about trees that the grammar does not derive.

* `Token.Fits` and `Tree.Fits` say which numerals have a value, where the one above the largest
  integer needs a minus sign directly before it.
* `Reading.Decides` states when a computation succeeds, and that it fails for no other reason than
  the range of a literal.
* `Tree.IsA.reads`, `Tree.IsA.readsStmt` and `Tree.IsA.readsProgram` say so of the readers.

The readers have errors for trees of the wrong form: a statement without children, an expression
that is missing, an operator that finds no place.  They cannot come up for derivations, and are
excluded by the shape of these, case by case.  Left are numerals without a value.  `Reading.Decides`
is an equivalence and names the only reason for failure; it is closed under running one reader after
another, with the conditions joined by a conjunction.

The least integer is the odd case.  Its numeral has no value by itself, and has one directly behind
a minus sign, where a rule for operands of signs looks for it.
-/

namespace Cellular

open Number (Decimal)

/-! ## Ranges

The condition on a tree looks at its numerals only, and hands down whether a sign stands in front.
-/

/-- A token that has a value if it is a numeral; `minus` says whether a minus sign stands directly
before it. -/
def Token.Fits (minus : Bool) (t : Token) : Prop :=
  match t.kind with
  | .int =>
    Number.digitsValue t.text.toList ≤ maxInt ∨
      minus = true ∧ Number.digitsValue t.text.toList = maxInt + 1
  | .float =>
    ∃ d, Decimal.parse? t.text.toList = some d ∧
      d.nearest Number.single ≠ Number.single.infinity false
  | _ => True

mutual

/-- All numerals of a derivation have a value; `minus` says whether a minus sign stands directly
before it.  Numerals are operands of their own, and a sign stands before the operand that it is
applied to. -/
def Tree.Fits (minus : Bool) : Tree → Prop
  | .leaf _ => True
  | .node .unary _ [.leaf sign, operand] => operand.Fits (sign.text = "-")
  | .node .unary _ [primary] => primary.Fits minus
  | .node .primary _ [.leaf t] => t.Fits minus
  | .node _ _ ts => Tree.AllFit ts

/-- All numerals of several derivations have a value. -/
def Tree.AllFit : List Tree → Prop
  | [] => True
  | t :: ts => t.Fits false ∧ Tree.AllFit ts

end

lemma Tree.fits_leaf (minus : Bool) (t : Token) : (Tree.leaf t).Fits minus := by
  rw [Tree.Fits]
  trivial

lemma Tree.allFit_iff {ts : List Tree} : Tree.AllFit ts ↔ ∀ t ∈ ts, t.Fits false := by
  induction ts with
  | nil => simp [Tree.AllFit]
  | cons t ts ih => simp [Tree.AllFit, ih]

/-- Only operands look at the sign before them. -/
lemma Tree.fits_node {p : Production} (hunary : p ≠ .unary) (hprimary : p ≠ .primary)
    (minus : Bool) (pos : Position) (ts : List Tree) :
    (Tree.node p pos ts).Fits minus ↔ ∀ t ∈ ts, t.Fits false := by
  rw [← Tree.allFit_iff, Tree.Fits]
  all_goals simp [hunary, hprimary]

/-- A cast or a name stands for itself. -/
lemma Tree.IsA.fits_primary {q : Production} {t : Tree} (h : t.IsA q) (minus : Bool)
    (pos : Position) : (Tree.node .primary pos [t]).Fits minus ↔ t.Fits false := by
  obtain ⟨_, _, rfl, -⟩ := h.node
  simp [Tree.Fits, Tree.AllFit]

/-! ## Computations that fail for ranges only

A reading is decided by a proposition if it succeeds exactly where this holds.
-/

/-- The range of a literal. -/
def ParseCause.OfRange : ParseCause → Prop
  | .integerRange _ | .floatRange _ => True
  | _ => False

/-- The computation succeeds exactly if `P` holds; otherwise a literal is out of range. -/
def Reading.Decides {β : Type} (P : Prop) : Reading β → Prop
  | .ok _ => P
  | .error (_, cause) => ¬ P ∧ cause.OfRange

namespace Reading.Decides

variable {β γ : Type} {P Q : Prop}

lemma congr {r : Reading β} (h : Reading.Decides P r) (hPQ : P ↔ Q) : Reading.Decides Q r := by
  rwa [← hPQ]

lemma ok (b : β) : Reading.Decides True (.ok b : Reading β) := trivial

/-- Two computations in a row need what both need. -/
lemma bind {r : Reading β} {f : β → Reading γ} (hr : Reading.Decides P r)
    (hf : ∀ b, r = .ok b → Reading.Decides Q (f b)) : Reading.Decides (P ∧ Q) (r >>= f) := by
  cases r with
  | error e => exact ⟨fun h => hr.1 h.1, hr.2⟩
  | ok b => exact (hf b rfl).congr ⟨fun hq => ⟨hr, hq⟩, And.right⟩

/-- A computation whose result is only put to use. -/
lemma map {r : Reading β} (hr : Reading.Decides P r) (f : β → γ) :
    Reading.Decides P (do let b ← r; return f b) :=
  (hr.bind fun b _ => .ok (f b)).congr (and_iff_left trivial)

/-- A success needs nothing more. -/
lemma exists_ok_iff {r : Reading β} (h : Reading.Decides P r) : (∃ b, r = .ok b) ↔ P := by
  cases r with
  | error e => exact ⟨fun ⟨_, h⟩ => (by cases h), fun hP => absurd hP h.1⟩
  | ok b => exact ⟨fun _ => h, fun _ => ⟨b, rfl⟩⟩

end Reading.Decides

/-! ## Literals

At a single token the two sides are compared directly.
-/

lemma readInt_decides {t : Token} (ht : t.kind = .int) (pos : Position) :
    Reading.Decides (t.Fits false) (readInt pos t.text) := by
  simp only [readInt, Token.Fits, ht]
  split_ifs with h
  · exact .inl h
  · exact ⟨by simpa using h, trivial⟩

lemma readFloat_decides {t : Token} (ht : t.kind = .float) (pos : Position) :
    Reading.Decides (t.Fits false) (readFloat pos t.text) := by
  simp only [readFloat, Token.Fits, ht]
  split
  · rename_i d hd
    split_ifs with h
    · refine ⟨?_, trivial⟩
      rintro ⟨d', hd', hfinite⟩
      rw [hd] at hd'
      cases hd'
      exact hfinite h
    · exact ⟨d, hd, h⟩
  · rename_i hd
    refine ⟨?_, trivial⟩
    rintro ⟨d', hd', -⟩
    rw [hd] at hd'
    cases hd'

/-- An operand that is the numeral one above the largest integer. -/
def Tree.IsLeastInt : Tree → Prop
  | .node .unary _ [.node .primary _ [.leaf t]] =>
    t.kind = .int ∧ Number.digitsValue t.text.toList = maxInt + 1
  | _ => False

/-- Without a sign such an operand has no value. -/
lemma Tree.IsLeastInt.not_fits {t : Tree} (h : t.IsLeastInt) : ¬ t.Fits false := by
  unfold Tree.IsLeastInt at h
  split at h
  · simp [Tree.Fits, Token.Fits, h.1, h.2]
  · cases h

/-- The least integer is read from a minus sign before such an operand. -/
lemma readLeastInt?_isSome_iff (pos : Position) (sign : Token) (t : Tree) :
    (readLeastInt? pos sign t).isSome = true ↔ sign.text = "-" ∧ t.IsLeastInt := by
  unfold readLeastInt? Tree.IsLeastInt
  split
  · split_ifs with h
    · simpa [and_assoc] using h
    · simpa [and_assoc] using h
  · simp

/-- What is read so. -/
lemma eq_of_readLeastInt? {pos : Position} {sign : Token} {t : Tree} {e : Expr Position}
    (h : readLeastInt? pos sign t = some e) :
    ∃ (pos₁ pos₂ : Position) (k : Token), t = .node .unary pos₁ [.node .primary pos₂ [.leaf k]] ∧
      sign.text = "-" ∧ k.kind = .int ∧ Number.digitsValue k.text.toList = maxInt + 1 ∧
      e = .int pos Int32.minValue ("-" ++ k.text) := by
  simp only [readLeastInt?] at h
  split at h
  · rename_i pos₁ pos₂ k
    split_ifs at h with hleast
    simp only [Bool.and_eq_true, decide_eq_true_eq] at hleast
    cases h
    exact ⟨pos₁, pos₂, k, rfl, hleast.1.1, hleast.1.2, hleast.2, rfl⟩
  · cases h

/-- A minus sign before an operand makes room for the least integer and nothing else. -/
lemma Tree.IsA.fits_minus {t : Tree} (h : t.IsA .unary) (minus : Bool) :
    t.Fits minus ↔ t.Fits false ∨ minus = true ∧ t.IsLeastInt := by
  obtain ⟨pos, ts, rfl, hts⟩ := h.node
  rcases hts.of_unary with ⟨op, operand, rfl, -⟩ | ⟨primary, rfl, hprimary⟩
  · simp only [Tree.Fits, Tree.IsLeastInt, and_false, or_false]
  · obtain ⟨pos', us, rfl, hus⟩ := hprimary.node
    rcases hus.of_primary with ⟨t, rfl, -⟩ | ⟨cast, rfl, hcast⟩ | ⟨access, rfl, haccess⟩ |
      ⟨opening, closing, inner, rfl, -⟩
    · simp only [Tree.Fits, Tree.IsLeastInt, Token.Fits]
      cases t.kind <;> simp
    · rw [Tree.Fits, Tree.Fits, hcast.fits_primary, hcast.fits_primary]
      obtain ⟨_, _, rfl, -⟩ := hcast.node
      simp [Tree.IsLeastInt]
    · rw [Tree.Fits, Tree.Fits, haccess.fits_primary, haccess.fits_primary]
      obtain ⟨_, _, rfl, -⟩ := haccess.node
      simp [Tree.IsLeastInt]
    · simp [Tree.Fits, Tree.IsLeastInt]

/-! ## Expressions

The property `Tree.Reads` is proved of all trees below a derivation at once, as a sign looks two
rules down.
-/

/-- The language knows the operators of the grammar. -/
lemma BinaryOp.ofSymbol_mem_known : ∀ s ∈
    ["||", "&&", "==", "!=", "<=", ">=", "<", ">", "+", "-", "*", "/", "%"],
    BinaryOp.ofSymbol s ∈ BinaryOp.known := by
  decide

/-- Operators that the language knows have a rank. -/
lemma BinaryOp.one_le_precedence : ∀ op ∈ BinaryOp.known, 1 ≤ op.precedence := by
  decide

/-- Operators that have a rank find a place. -/
lemma readChain_eq_ok (head : Expr Position) {links : List (Link Position)}
    (h : ∀ k ∈ links, 1 ≤ k.op.precedence) : ∃ e, readChain head links = .ok e := by
  obtain ⟨c, hclimb, -⟩ := Chain.climb_all head h
  exact ⟨c.toExpr, by rw [readChain, hclimb]⟩

/-- The rules that are read as expressions. -/
def Production.isExpr : Production → Bool
  | .expr | .chain | .unary | .primary => true
  | _ => false

/-- Reading a tree of an expression needs its numerals to fit. -/
def Tree.Reads (t : Tree) : Prop :=
  ∀ p, p.isExpr = true → t.IsA p → Reading.Decides (t.Fits false) (readExpr t)

/-- Links are read if their operands are, and their operators have a rank. -/
lemma readLinks_decides {ts : List Tree} (hlinks : ∀ t ∈ ts, t.IsA .link)
    (h : ∀ t ∈ ts, t.Everywhere Tree.Reads) :
    Reading.Decides (∀ t ∈ ts, t.Fits false) (readLinks ts) ∧
      ∀ ks, readLinks ts = .ok ks → ∀ k ∈ ks, 1 ≤ k.op.precedence := by
  induction ts with
  | nil =>
      rw [readLinks]
      refine ⟨(Reading.Decides.ok _).congr (by simp), ?_⟩
      rintro ks ⟨⟩
      simp
  | cons t ts ih =>
      obtain ⟨hlink, hlinks⟩ := List.forall_mem_cons.mp hlinks
      obtain ⟨ht, h⟩ := List.forall_mem_cons.mp h
      obtain ⟨ihdecides, ihrank⟩ := ih hlinks h
      obtain ⟨pos, us, rfl, hus⟩ := hlink.node
      obtain ⟨op, operand, rfl, hop, hoperand⟩ := hus.of_link
      have hread := ((Tree.everywhere_node.mp ht).2 operand (by simp)).here .unary rfl hoperand
      rw [readLinks]
      constructor
      · refine (hread.bind fun e _ => ihdecides.map _).congr ?_
        rw [List.forall_mem_cons, Tree.fits_node (by decide) (by decide)]
        simp [Tree.Fits]
      · intro ks hks
        simp only [bind_eq_ok, pure_eq_ok] at hks
        obtain ⟨e, -, ks', hks', rfl⟩ := hks
        have hrank := BinaryOp.one_le_precedence _ (BinaryOp.ofSymbol_mem_known _ hop)
        exact List.forall_mem_cons.mpr ⟨hrank, ihrank ks' hks'⟩

/-- A dotted name has no numerals. -/
lemma Tree.IsA.access_fits {t : Tree} (h : t.IsA .access) : t.Fits false := by
  obtain ⟨pos, ts, rfl, hts⟩ := h.node
  obtain ⟨root, parts, rfl, -⟩ := hts.of_access
  rw [Tree.fits_node (by decide) (by decide)]
  intro t ht
  simp only [List.mem_cons, List.mem_flatMap, List.not_mem_nil, or_false] at ht
  rcases ht with rfl | ⟨part, -, rfl | rfl⟩ <;> simp [Tree.Fits]

lemma unary_reads {pos : Position} {ts : List Tree} (h : Production.unary.body.Derives ts)
    (ih : ∀ t ∈ ts, t.Everywhere Tree.Reads) :
    Reading.Decides ((Tree.node .unary pos ts).Fits false) (readExpr (.node .unary pos ts)) := by
  rcases h.of_unary with ⟨op, operand, rfl, -, hoperand⟩ | ⟨primary, rfl, hprimary⟩
  · have hread := (ih operand (by simp)).here .unary rfl hoperand
    have hleast := readLeastInt?_isSome_iff pos op operand
    rw [Tree.Fits, hoperand.fits_minus, decide_eq_true_eq, ← hleast, readExpr]
    split
    · rename_i e he
      simp [Reading.Decides, he]
    · rename_i hnone
      exact (hread.map _).congr (by simp [hnone])
  · have hread := (ih primary (by simp)).here .primary rfl hprimary
    rwa [Tree.Fits, readExpr]

lemma primary_reads {pos : Position} {ts : List Tree} (h : Production.primary.body.Derives ts)
    (ih : ∀ t ∈ ts, t.Everywhere Tree.Reads) :
    Reading.Decides ((Tree.node .primary pos ts).Fits false)
      (readExpr (.node .primary pos ts)) := by
  rcases h.of_primary with ⟨t, rfl, -⟩ | ⟨cast, rfl, hcast⟩ | ⟨access, rfl, haccess⟩ |
    ⟨opening, closing, inner, rfl, -, -, hinner⟩
  · rw [Tree.Fits, readExpr]
    split
    · exact readFloat_decides ‹_› pos
    · exact readInt_decides ‹_› pos
    · refine (Reading.Decides.ok _).congr (iff_of_true trivial ?_)
      rw [Token.Fits]
      split
      · contradiction
      · contradiction
      · trivial
  · rw [hcast.fits_primary]
    obtain ⟨pos', us, rfl, hus⟩ := hcast.node
    obtain ⟨target, opening, closing, operand, rfl, -, -, -, hoperand⟩ := hus.of_cast
    have hbelow := (Tree.everywhere_node.mp (ih _ List.mem_cons_self)).2
    have hread := (hbelow operand (by simp)).here .expr rfl hoperand
    rw [readExpr, Tree.fits_node (by decide) (by decide)]
    exact (hread.map _).congr (by simp [Tree.fits_leaf])
  · have hfits := (haccess.fits_primary false pos).mpr haccess.access_fits
    obtain ⟨pos', us, rfl, hus⟩ := haccess.node
    obtain ⟨root, parts, rfl, -⟩ := hus.of_access
    rw [readExpr]
    exact (Reading.Decides.ok _).congr (iff_of_true trivial hfits)
  · have hread := (ih inner (by simp)).here .expr rfl hinner
    rw [readExpr]
    exact hread.congr (by simp [Tree.Fits, Tree.AllFit])

/-- **Derivations of expressions are read** exactly if their numerals fit. -/
lemma Tree.reads (t : Tree) (h : t.Derived) : t.Everywhere Tree.Reads := by
  induction t using Tree.induction with
  | leaf t =>
      rw [Tree.Everywhere]
      intro p _ hleaf
      cases hleaf
  | node p pos ts ih =>
      replace ih : ∀ t ∈ ts, t.Everywhere Tree.Reads := fun t ht => ih t ht (h.children t ht)
      refine Tree.everywhere_node.mpr ⟨?_, ih⟩
      rintro q hq ⟨rfl, hts⟩
      cases p with
      | expr =>
          rw [Tree.fits_node (by decide) (by decide)]
          obtain ⟨chain, hchain, rfl | ⟨asks, parts, yes, no, -, -, hyes, hno, rfl⟩⟩ := hts.of_expr
          · have hread := (ih chain (by simp)).here .chain rfl hchain
            rw [readExpr]
            exact hread.congr (by simp)
          · have hreadchain := (ih chain (by simp)).here .chain rfl hchain
            have hreadyes := (ih yes (by simp)).here .expr rfl hyes
            have hreadno := (ih no (by simp)).here .expr rfl hno
            rw [readExpr]
            exact (hreadchain.bind fun _ _ => hreadyes.bind fun _ _ => hreadno.map _).congr
              (by simp [Tree.fits_leaf])
      | chain =>
          rw [Tree.fits_node (by decide) (by decide)]
          obtain ⟨head, links, rfl, hhead, hlinks⟩ := hts.of_chain
          obtain ⟨hreadhead, hreadlinks⟩ := List.forall_mem_cons.mp ih
          obtain ⟨hdecides, hrank⟩ := readLinks_decides hlinks hreadlinks
          have hplace : ∀ e ks, readLinks links = .ok ks →
              Reading.Decides True (readChain e ks) := by
            intro e ks hks
            obtain ⟨e', he'⟩ := readChain_eq_ok e (hrank ks hks)
            rw [he']
            exact .ok e'
          rw [readExpr]
          exact ((hreadhead.here .unary rfl hhead).bind fun e _ => hdecides.bind fun ks hks =>
            hplace e ks hks).congr (by simp)
      | unary => exact unary_reads hts ih
      | primary => exact primary_reads hts ih
      | _ => cases hq

lemma Tree.IsA.reads {p : Production} (hp : p.isExpr = true) {t : Tree} (h : t.IsA p) :
    Reading.Decides (t.Fits false) (readExpr t) :=
  (t.reads h.derived).here p hp h

/-! ## Statements

Statements have no numerals of their own, and their parts are read one after the other.
-/

/-- The rules that are read as statements. -/
def Production.isStmt : Production → Bool
  | .stmt | .block | .cond | .decl | .assign => true
  | _ => false

/-- The tree below a statement is of one of the rules that are read as statements. -/
lemma Grammar.Derives.of_stmt_isStmt {ts : List Tree} (h : Production.stmt.body.Derives ts) :
    ∃ (inner : Tree) (p : Production), ts = [inner] ∧ p.isStmt = true ∧ inner.IsA p := by
  obtain ⟨inner, rfl, hinner⟩ := h.of_stmt
  rcases hinner with hinner | hinner | hinner | hinner
  · exact ⟨inner, .block, rfl, rfl, hinner⟩
  · exact ⟨inner, .cond, rfl, rfl, hinner⟩
  · exact ⟨inner, .decl, rfl, rfl, hinner⟩
  · exact ⟨inner, .assign, rfl, rfl, hinner⟩

/-- Reading a tree of a statement needs its numerals to fit. -/
def Tree.ReadsStmt (t : Tree) : Prop :=
  ∀ p, p.isStmt = true → t.IsA p → Reading.Decides (t.Fits false) (readStmt t)

/-- Statements are read in turn, up to the brace that may close them. -/
lemma readBlock_decides {ts : List Tree} (hstmts : ∀ t ∈ ts, t.IsA .stmt)
    (h : ∀ t ∈ ts, t.ReadsStmt) {closing : List Tree}
    (hclosing : closing = [] ∨ ∃ t, closing = [.leaf t]) :
    Reading.Decides (∀ t ∈ ts, t.Fits false) (readBlock (ts ++ closing)) := by
  induction ts with
  | nil =>
      rcases hclosing with rfl | ⟨t, rfl⟩
      · exact (Reading.Decides.ok _).congr (by simp)
      · exact (Reading.Decides.ok _).congr (by simp)
  | cons t ts ih =>
      obtain ⟨hstmt, hmore⟩ := List.forall_mem_cons.mp hstmts
      obtain ⟨ht, hreads⟩ := List.forall_mem_cons.mp h
      have hread := ht .stmt rfl hstmt
      obtain ⟨pos, us, rfl, -⟩ := hstmt.node
      rw [List.cons_append, readBlock, List.forall_mem_cons]
      · exact hread.bind fun _ _ => (ih hmore hreads).map _
      · rintro t ⟨⟩

/-- **Derivations of statements are read** exactly if their numerals fit. -/
lemma Tree.readsStmt (t : Tree) (h : t.Derived) : t.ReadsStmt := by
  induction t using Tree.induction with
  | leaf t =>
      intro p _ hleaf
      cases hleaf
  | node p pos ts ih =>
      replace ih : ∀ t ∈ ts, t.ReadsStmt := fun t ht => ih t ht (h.children t ht)
      rintro q hq ⟨rfl, hts⟩
      cases p with
      | stmt =>
          rw [Tree.fits_node (by decide) (by decide)]
          obtain ⟨inner, below, rfl, hbelow, hinner⟩ := hts.of_stmt_isStmt
          have hread := ih inner (by simp) below hbelow hinner
          rw [readStmt]
          exact hread.congr (by simp)
      | block =>
          rw [Tree.fits_node (by decide) (by decide)]
          obtain ⟨opening, closing, body, rfl, -, -, hbody⟩ := hts.of_block
          have hread := readBlock_decides hbody (fun t ht => ih t (by simp [ht]))
            (.inr ⟨closing, rfl⟩)
          rw [readStmt]
          exact (hread.map _).congr (by simp [Tree.fits_leaf, or_imp, forall_and])
      | cond =>
          rw [Tree.fits_node (by decide) (by decide)]
          obtain ⟨word, opening, closing, test, yes, -, -, -, htest, hyes, hts⟩ := hts.of_cond
          have hreadtest := htest.reads rfl
          rcases hts with rfl | ⟨other, no, -, hno, rfl⟩
          · have hreadyes := ih yes (by simp) .stmt rfl hyes
            rw [readStmt]
            exact (hreadtest.bind fun _ _ => hreadyes.map _).congr (by simp [Tree.fits_leaf])
          · have hreadyes := ih yes (by simp) .stmt rfl hyes
            have hreadno := ih no (by simp) .stmt rfl hno
            rw [readStmt]
            exact (hreadtest.bind fun _ _ => hreadyes.bind fun _ _ => hreadno.map _).congr
              (by simp [Tree.fits_leaf])
      | decl =>
          rw [Tree.fits_node (by decide) (by decide)]
          obtain ⟨type, name, closing, -, -, -, rfl | ⟨sign, init, -, hinit, rfl⟩⟩ := hts.of_decl
          · rw [readStmt]
            exact (Reading.Decides.ok _).congr (by simp [Tree.fits_leaf])
          · rw [readStmt]
            exact ((hinit.reads rfl).map _).congr (by simp [Tree.fits_leaf])
      | assign =>
          rw [Tree.fits_node (by decide) (by decide)]
          obtain ⟨op, closing, target, value, rfl, htarget, -, hvalue, -⟩ := hts.of_assign
          have hfits := htarget.access_fits
          obtain ⟨pos', us, rfl, hus⟩ := htarget.node
          obtain ⟨root, parts, rfl, -⟩ := hus.of_access
          rw [readStmt]
          exact ((hvalue.reads rfl).map _).congr (by simp [hfits, Tree.fits_leaf])
      | _ => cases hq

lemma Tree.IsA.readsProgram {t : Tree} (h : t.IsA .program) :
    Reading.Decides (t.Fits false) (readProgram t) := by
  obtain ⟨pos, ts, rfl, hts⟩ := h.node
  have hstmts := hts.of_many_rule
  have hread := readBlock_decides hstmts (fun t ht => t.readsStmt (hstmts t ht).derived) (.inl rfl)
  rw [List.append_nil] at hread
  rw [readProgram]
  exact (hread.map _).congr (Tree.fits_node (by decide) (by decide) false pos ts).symm

end Cellular
