import Cellular.Proofs.Source.Statements

/-!
# Places decide nothing

The recogniser and the readers see kinds and texts of tokens.  Places go into their results and play
no role on the way: tokens without places are recognised alike, and what is read from them is the
same, places aside.

* `Token.unplaced`, `Tree.unplaced` and `Outcome.unplaced` take the places away.
* `recogniserBlind` and `parseTree_unplaced`: recognising goes on as before without places.
* `Chain.climb_unplaced`: so does climbing.
* `Tree.IsA.readsBlind` and `Tree.IsA.readsProgramBlind`: so does reading derivations.
* `parseWith_alike` puts the stages together for two texts whose tokens have the same kinds and
  texts.

Two functions agree up to places if they commute with taking places away.  Stated in this way,
agreement goes through compositions, and each function needs one equation.  Only derivations are
read in this way: on other trees the fallback errors of the readers would show, and so the readers
have the shape of derivations as a hypothesis.
-/

namespace Cellular

/-! ## Without places

Places are replaced by a fixed one in tokens, trees, diagnostics and cursors.
-/

/-- The same token at no place. -/
def Token.unplaced (t : Token) : Token := { t with pos := {} }

mutual

/-- The same tree without places. -/
def Tree.unplaced : Tree → Tree
  | .leaf t => .leaf t.unplaced
  | .node p _ ts => .node p {} (Tree.unplacedAll ts)

/-- The same trees without places. -/
def Tree.unplacedAll : List Tree → List Tree
  | [] => []
  | t :: ts => t.unplaced :: Tree.unplacedAll ts

end

namespace Tree

lemma unplacedAll_eq_map (ts : List Tree) : unplacedAll ts = ts.map unplaced := by
  induction ts with
  | nil => rw [unplacedAll, List.map_nil]
  | cons t ts ih => rw [unplacedAll, ih, List.map_cons]

@[simp] lemma unplaced_leaf (t : Token) : (Tree.leaf t).unplaced = .leaf t.unplaced := by
  rw [unplaced]

@[simp] lemma unplaced_node (p : Production) (pos : Position) (ts : List Tree) :
    (Tree.node p pos ts).unplaced = .node p {} (ts.map unplaced) := by
  rw [unplaced, unplacedAll_eq_map]

end Tree

/-- The same diagnostic without the place of its token. -/
def Unexpected.unplaced (u : Unexpected) : Unexpected := { u with token := u.token.unplaced }

/-- The same result without places. -/
def Outcome.unplaced : Outcome → Outcome
  | .noMatch => .noMatch
  | .matched trees => .matched (trees.map Tree.unplaced)
  | .failed u => .failed u.unplaced

namespace Cursor

/-- The same state over tokens without places. -/
def unplaced (c : Cursor) : Cursor :=
  { c with rest := c.rest.map Token.unplaced, deepest := c.deepest.map Unexpected.unplaced }

variable (c b : Cursor) (u : Unexpected)

@[simp] lemma next_unplaced : c.unplaced.next = c.next.unplaced := by
  obtain ⟨rest, index, deepest, depth⟩ := c
  cases rest <;> rfl

@[simp] lemma advance_unplaced : c.unplaced.advance = c.advance.unplaced := by
  obtain ⟨rest, index, deepest, depth⟩ := c
  cases rest <;> rfl

@[simp] lemma index_unplaced : c.unplaced.index = c.index := rfl

@[simp] lemma note_unplaced : c.unplaced.note u.unplaced = (c.note u).unplaced := by
  by_cases h : c.depth ≤ c.index <;> simp [note, unplaced, h]

@[simp] lemma accept_unplaced : c.unplaced.accept b.unplaced = (c.accept b).unplaced := by
  by_cases h : c.depth ≤ b.depth <;> simp [accept, unplaced, h]

@[simp] lemma learn_unplaced : c.unplaced.learn b.unplaced u.unplaced = (c.learn b u).unplaced := by
  by_cases h : c.depth < b.depth
  · simp [learn, unplaced, h]
  · by_cases h' : c.depth ≤ b.index <;> simp [learn, unplaced, h, h']

@[simp] lemma committed_unplaced : c.unplaced.committed b.unplaced = c.committed b := rfl

end Cursor

/-! ## Recognising

The recogniser copies places and compares indices, which count tokens and are no places.
-/

/-- A result and the state behind it, without places. -/
def unplacedResult (r : Outcome × Cursor) : Outcome × Cursor := (r.1.unplaced, r.2.unplaced)

/-- What the four functions of the recogniser do without places, with a given amount of fuel. -/
structure RecogniserBlind (fuel : Nat) : Prop where
  one : ∀ g c, recognise fuel g c.unplaced = unplacedResult (recognise fuel g c)
  seq : ∀ first gs c,
    recogniseSeq fuel first gs c.unplaced = unplacedResult (recogniseSeq fuel first gs c)
  alt : ∀ gs reach (best : Option Unexpected) c,
    recogniseAlt fuel gs reach (best.map Unexpected.unplaced) c.unplaced
      = unplacedResult (recogniseAlt fuel gs reach best c)
  many : ∀ again g c,
    recogniseMany fuel again g c.unplaced = unplacedResult (recogniseMany fuel again g c)

namespace RecogniserBlind

variable {fuel : Nat}

lemma zero : RecogniserBlind 0 where
  one g c := rfl
  seq first gs c := by
    cases first <;> simp [recogniseSeq, unplacedResult, Outcome.unplaced, Unexpected.unplaced]
  alt gs reach best c := rfl
  many again g c := rfl

lemma one_succ (ih : RecogniserBlind fuel) (g : Grammar) (c : Cursor) :
    recognise (fuel + 1) g c.unplaced = unplacedResult (recognise (fuel + 1) g c) := by
  cases g with
  | literal text =>
      simp only [recognise, Cursor.next_unplaced, Token.unplaced]
      split_ifs <;> simp [unplacedResult, Outcome.unplaced, Token.unplaced]
  | kind k =>
      simp only [recognise, Cursor.next_unplaced, Token.unplaced]
      split_ifs <;> simp [unplacedResult, Outcome.unplaced, Token.unplaced]
  | rule p =>
      simp only [recognise, ih.one]
      rcases recognise fuel p.body c with ⟨_ | _ | _, b⟩ <;>
        simp [unplacedResult, Outcome.unplaced, Token.unplaced]
  | seq items =>
      simp only [recognise]
      exact ih.seq true items c
  | alt items =>
      simp only [recognise]
      exact ih.alt items 0 none c
  | optional item =>
      simp only [recognise]
      exact ih.many false item c
  | many item =>
      simp only [recognise]
      exact ih.many true item c

lemma seq_succ (ih : RecogniserBlind fuel) (first : Bool) (gs : List Grammar) (c : Cursor) :
    recogniseSeq (fuel + 1) first gs c.unplaced
      = unplacedResult (recogniseSeq (fuel + 1) first gs c) := by
  cases gs with
  | nil => simp [recogniseSeq, unplacedResult, Outcome.unplaced]
  | cons g gs =>
      simp only [recogniseSeq, ih.one]
      rcases recognise fuel g c with ⟨_ | trees | u, b⟩
      · cases first <;> simp [unplacedResult, Outcome.unplaced, Unexpected.unplaced]
      · simp only [unplacedResult, Outcome.unplaced, ih.seq]
        rcases recogniseSeq fuel false gs b with ⟨_ | others | u, d⟩ <;> simp
      · rfl

lemma alt_succ (ih : RecogniserBlind fuel) (gs : List Grammar) (reach : Nat)
    (best : Option Unexpected) (c : Cursor) :
    recogniseAlt (fuel + 1) gs reach (best.map Unexpected.unplaced) c.unplaced
      = unplacedResult (recogniseAlt (fuel + 1) gs reach best c) := by
  cases gs with
  | nil => cases best <;> simp [recogniseAlt, unplacedResult, Outcome.unplaced]
  | cons g gs =>
      simp only [recogniseAlt, ih.one]
      rcases recognise fuel g c with ⟨_ | trees | u, b⟩
      · exact ih.alt gs reach best c
      · simp [unplacedResult, Outcome.unplaced]
      · have hsome := ih.alt gs b.index (some u) (c.learn b u)
        have hbest := ih.alt gs reach best (c.learn b u)
        simp only [unplacedResult, Outcome.unplaced, Cursor.learn_unplaced,
          Cursor.committed_unplaced, Cursor.accept_unplaced, Cursor.index_unplaced] at hsome hbest ⊢
        split_ifs
        · rfl
        · exact hsome
        · exact hbest

lemma many_succ (ih : RecogniserBlind fuel) (again : Bool) (g : Grammar) (c : Cursor) :
    recogniseMany (fuel + 1) again g c.unplaced
      = unplacedResult (recogniseMany (fuel + 1) again g c) := by
  simp only [recogniseMany, ih.one]
  rcases recognise fuel g c with ⟨_ | trees | u, b⟩
  · simp [unplacedResult, Outcome.unplaced]
  · cases again
    · simp [unplacedResult, Outcome.unplaced]
    · simp only [unplacedResult, Outcome.unplaced, Cursor.accept_unplaced, ih.many, if_true]
      rcases recogniseMany fuel true g (c.accept b) with ⟨_ | others | u, d⟩ <;> simp
  · simp only [unplacedResult, Outcome.unplaced, Cursor.note_unplaced, Cursor.learn_unplaced,
      Cursor.committed_unplaced, Cursor.accept_unplaced]
    split_ifs <;> simp

end RecogniserBlind

/-- **The recogniser does not look at places.** -/
theorem recogniserBlind (fuel : Nat) : RecogniserBlind fuel := by
  induction fuel with
  | zero => exact .zero
  | succ fuel ih => exact ⟨ih.one_succ, ih.seq_succ, ih.alt_succ, ih.many_succ⟩

/-- The tree of a text, if it has one, is the same without places. -/
lemma parseTree_unplaced (p : Production) (tokens : List Token) :
    (parseTree p (tokens.map Token.unplaced)).toOption
      = (parseTree p tokens).toOption.map Tree.unplaced := by
  have hblind := (recogniserBlind (recogniserFuel tokens.length)).one (.rule p) { rest := tokens }
  have hstart : ({ rest := tokens.map Token.unplaced } : Cursor)
      = Cursor.unplaced { rest := tokens } := rfl
  rw [parseTree, parseTree, List.length_map, hstart, hblind]
  rcases recognise (recogniserFuel tokens.length) (.rule p) { rest := tokens } with
    ⟨_ | trees | u, c⟩
  · rfl
  · rcases trees with _ | ⟨tree, _ | ⟨other, more⟩⟩
    · rfl
    · have hkind : c.unplaced.next.kind = c.next.kind := by rw [c.next_unplaced, Token.unplaced]
      simp only [unplacedResult, Outcome.unplaced, List.map_cons, List.map_nil, hkind]
      split_ifs <;> rfl
    · rfl
  · rfl

/-! ## Climbing

Ranks depend on operators alone.
-/

/-- The same expression at no place. -/
def Expr.unplaced (e : Expr Position) : Expr Position := e.map fun _ => {}

lemma Expr.bare_unplaced (e : Expr Position) : e.unplaced.bare = e.bare := e.map_map _ _

/-- The same operator and operand at no place. -/
def Link.unplaced (k : Link Position) : Link Position :=
  { note := {}, op := k.op, operand := k.operand.unplaced }

namespace Chain

/-- The same chain at no place. -/
def unplaced : Chain Position → Chain Position
  | .operand e => .operand e.unplaced
  | .node _ op l r => .node {} op l.unplaced r.unplaced

lemma unplaced_toExpr (c : Chain Position) : c.unplaced.toExpr = c.toExpr.unplaced := by
  induction c with
  | operand e => rfl
  | node pos op l r ihl ihr =>
      rw [unplaced, toExpr, toExpr, ihl, ihr]
      rfl

/-- **Climbing does not look at places.** -/
lemma climb_unplaced (least : Nat) (c : Chain Position) (links : List (Link Position)) :
    (climb least c.unplaced (links.map Link.unplaced)).val
      = ((climb least c links).val.1.unplaced, (climb least c links).val.2.map Link.unplaced) := by
  induction least, c, links using climb_induction with
  | nil least c => exact climb_nil least c.unplaced
  | stop least c link more h =>
      have hloose : link.unplaced.op.precedence < least := h
      exact climb_of_lt hloose c.unplaced _
  | step least c link more right rest whole h ihright ihwhole =>
      rw [List.map_cons, climb_of_le link.unplaced h c.unplaced ihright]
      exact ihwhole

end Chain

/-! ## Reading

The errors of a reading keep their cause and lose their place.
-/

/-- What a reading gives, changed by `f`, or why it fails, at no place. -/
def Reading.unplaced {β γ : Type} (f : β → γ) : Reading β → Reading γ
  | .ok b => .ok (f b)
  | .error (_, cause) => .error ({}, cause)

/-- Computations in a row look at no places if none of them does. -/
lemma Reading.unplaced_bind {β β' γ γ' : Type} {f : β → β'} {g : γ → γ'} {r : Reading β}
    {more : β → Reading γ} {more' : β' → Reading γ'}
    (h : ∀ b, more' (f b) = Reading.unplaced g (more b)) :
    (Reading.unplaced f r >>= more') = Reading.unplaced g (r >>= more) := by
  cases r with
  | error e => rfl
  | ok b => exact h b

lemma readInt_unplaced (pos : Position) (text : String) :
    readInt {} text = Reading.unplaced Expr.unplaced (readInt pos text) := by
  simp only [readInt]
  split_ifs <;> rfl

lemma readFloat_unplaced (pos : Position) (text : String) :
    readFloat {} text = Reading.unplaced Expr.unplaced (readFloat pos text) := by
  simp only [readFloat]
  split
  · split_ifs <;> rfl
  · rfl

/-- Operators are ranked alike. -/
lemma readChain_unplaced (head : Expr Position) (links : List (Link Position)) :
    readChain head.unplaced (links.map Link.unplaced)
      = Reading.unplaced Expr.unplaced (readChain head links) := by
  have hclimb := Chain.climb_unplaced 1 (.operand head) links
  rw [Chain.unplaced] at hclimb
  rw [readChain, hclimb, readChain]
  rcases (Chain.climb 1 (.operand head) links).val with ⟨c, _ | ⟨link, rest⟩⟩
  · exact congrArg Except.ok c.unplaced_toExpr
  · rfl

lemma readPath_unplaced (root : Token) (more : List Tree) :
    readPath root.unplaced (more.map Tree.unplaced) = readPath root more := by
  rw [readPath, readPath, List.filterMap_map, Token.unplaced]
  congr 2
  funext t
  cases t <;> simp [Token.unplaced]

/-- The least integer is found alike behind its sign. -/
lemma readLeastInt?_unplaced (pos : Position) (sign : Token) {t : Tree} (h : t.IsA .unary) :
    readLeastInt? {} sign.unplaced t.unplaced
      = (readLeastInt? pos sign t).map Expr.unplaced := by
  obtain ⟨pos', ts, rfl, hts⟩ := h.node
  rcases hts.of_unary with ⟨op, operand, rfl, -⟩ | ⟨primary, rfl, hprimary⟩
  · simp [readLeastInt?]
  · obtain ⟨pos'', us, rfl, hus⟩ := hprimary.node
    rcases hus.of_primary with ⟨t, rfl, -⟩ | ⟨cast, rfl, hcast⟩ | ⟨access, rfl, haccess⟩ |
      ⟨opening, closing, inner, rfl, -⟩
    · simp only [Tree.unplaced_node, Tree.unplaced_leaf, List.map_cons, List.map_nil,
        readLeastInt?]
      rw [apply_ite (Option.map Expr.unplaced)]
      rfl
    · obtain ⟨_, _, rfl, -⟩ := hcast.node
      simp [readLeastInt?]
    · obtain ⟨_, _, rfl, -⟩ := haccess.node
      simp [readLeastInt?]
    · simp [readLeastInt?]

/-- Reading a tree of an expression does not look at places. -/
def Tree.ReadsBlind (t : Tree) : Prop :=
  ∀ p, p.isExpr = true → t.IsA p →
    readExpr t.unplaced = Reading.unplaced Expr.unplaced (readExpr t)

lemma readLinks_unplaced {ts : List Tree} (hlinks : ∀ t ∈ ts, t.IsA .link)
    (h : ∀ t ∈ ts, t.Everywhere Tree.ReadsBlind) :
    readLinks (ts.map Tree.unplaced)
      = Reading.unplaced (List.map Link.unplaced) (readLinks ts) := by
  induction ts with
  | nil =>
      rw [List.map_nil, readLinks]
      rfl
  | cons t ts ih =>
      obtain ⟨hlink, hlinks⟩ := List.forall_mem_cons.mp hlinks
      obtain ⟨ht, h⟩ := List.forall_mem_cons.mp h
      replace ih := ih hlinks h
      obtain ⟨pos, us, rfl, hus⟩ := hlink.node
      obtain ⟨op, operand, rfl, -, hoperand⟩ := hus.of_link
      have hread := ((Tree.everywhere_node.mp ht).2 operand (by simp)).here .unary rfl hoperand
      simp only [List.map_cons, List.map_nil, Tree.unplaced_node, Tree.unplaced_leaf, readLinks,
        hread, ih]
      exact Reading.unplaced_bind fun e => Reading.unplaced_bind fun ks => rfl

lemma unary_readsBlind {pos : Position} {ts : List Tree} (h : Production.unary.body.Derives ts)
    (ih : ∀ t ∈ ts, t.Everywhere Tree.ReadsBlind) :
    readExpr (Tree.node .unary pos ts).unplaced
      = Reading.unplaced Expr.unplaced (readExpr (.node .unary pos ts)) := by
  rcases h.of_unary with ⟨op, operand, rfl, -, hoperand⟩ | ⟨primary, rfl, hprimary⟩
  · have hread := (ih operand (by simp)).here .unary rfl hoperand
    simp only [Tree.unplaced_node, Tree.unplaced_leaf, List.map_cons, List.map_nil, readExpr,
      readLeastInt?_unplaced pos op hoperand, hread]
    rcases readLeastInt? pos op operand with _ | e
    · exact Reading.unplaced_bind fun e => rfl
    · rfl
  · have hread := (ih primary (by simp)).here .primary rfl hprimary
    simpa only [Tree.unplaced_node, List.map_cons, List.map_nil, readExpr] using hread

lemma primary_readsBlind {pos : Position} {ts : List Tree}
    (h : Production.primary.body.Derives ts) (ih : ∀ t ∈ ts, t.Everywhere Tree.ReadsBlind) :
    readExpr (Tree.node .primary pos ts).unplaced
      = Reading.unplaced Expr.unplaced (readExpr (.node .primary pos ts)) := by
  rcases h.of_primary with ⟨t, rfl, -⟩ | ⟨cast, rfl, hcast⟩ | ⟨access, rfl, haccess⟩ |
    ⟨opening, closing, inner, rfl, -, -, hinner⟩
  · simp only [Tree.unplaced_node, Tree.unplaced_leaf, List.map_cons, List.map_nil, readExpr,
      Token.unplaced]
    split
    · exact readFloat_unplaced pos t.text
    · exact readInt_unplaced pos t.text
    · rfl
  · obtain ⟨pos', us, rfl, hus⟩ := hcast.node
    obtain ⟨target, opening, closing, operand, rfl, -, -, -, hoperand⟩ := hus.of_cast
    have hbelow := (Tree.everywhere_node.mp (ih _ List.mem_cons_self)).2
    have hread := (hbelow operand (by simp)).here .expr rfl hoperand
    simp only [Tree.unplaced_node, Tree.unplaced_leaf, List.map_cons, List.map_nil, readExpr,
      hread]
    exact Reading.unplaced_bind fun e => rfl
  · obtain ⟨pos', us, rfl, hus⟩ := haccess.node
    obtain ⟨root, parts, rfl, -⟩ := hus.of_access
    simp only [Tree.unplaced_node, Tree.unplaced_leaf, List.map_cons, List.map_nil, readExpr,
      readPath_unplaced]
    rfl
  · have hread := (ih inner (by simp)).here .expr rfl hinner
    simpa only [Tree.unplaced_node, Tree.unplaced_leaf, List.map_cons, List.map_nil, readExpr]
      using hread

/-- **Derivations of expressions are read without a look at places.** -/
lemma Tree.readsBlind (t : Tree) (h : t.Derived) : t.Everywhere Tree.ReadsBlind := by
  induction t using Tree.induction with
  | leaf t =>
      rw [Tree.Everywhere]
      intro p _ hleaf
      cases hleaf
  | node p pos ts ih =>
      replace ih : ∀ t ∈ ts, t.Everywhere Tree.ReadsBlind :=
        fun t ht => ih t ht (h.children t ht)
      refine Tree.everywhere_node.mpr ⟨?_, ih⟩
      rintro q hq ⟨rfl, hts⟩
      cases p with
      | expr =>
          obtain ⟨chain, hchain, rfl | ⟨asks, parts, yes, no, -, -, hyes, hno, rfl⟩⟩ := hts.of_expr
          · have hread := (ih chain (by simp)).here .chain rfl hchain
            simpa only [Tree.unplaced_node, List.map_cons, List.map_nil, readExpr] using hread
          · have hreadchain := (ih chain (by simp)).here .chain rfl hchain
            have hreadyes := (ih yes (by simp)).here .expr rfl hyes
            have hreadno := (ih no (by simp)).here .expr rfl hno
            simp only [Tree.unplaced_node, Tree.unplaced_leaf, List.map_cons, List.map_nil,
              readExpr, hreadchain, hreadyes, hreadno]
            exact Reading.unplaced_bind fun _ => Reading.unplaced_bind fun _ =>
              Reading.unplaced_bind fun _ => rfl
      | chain =>
          obtain ⟨head, links, rfl, hhead, hlinks⟩ := hts.of_chain
          obtain ⟨hreadhead, hreadlinks⟩ := List.forall_mem_cons.mp ih
          simp only [Tree.unplaced_node, List.map_cons, readExpr,
            hreadhead.here .unary rfl hhead, readLinks_unplaced hlinks hreadlinks]
          exact Reading.unplaced_bind fun e => Reading.unplaced_bind fun ks =>
            readChain_unplaced e ks
      | unary => exact unary_readsBlind hts ih
      | primary => exact primary_readsBlind hts ih
      | _ => cases hq

lemma Tree.IsA.readsBlind {p : Production} (hp : p.isExpr = true) {t : Tree} (h : t.IsA p) :
    readExpr t.unplaced = Reading.unplaced Expr.unplaced (readExpr t) :=
  (t.readsBlind h.derived).here p hp h

/-! ## Statements

Statements are read part by part, and each part is read without a look at its place.
-/

/-- The same statement at no place. -/
def Stmt.unplaced (s : Stmt Position) : Stmt Position := s.map fun _ => {}

/-- The same statements at no place. -/
def Stmt.allUnplaced (ss : List (Stmt Position)) : List (Stmt Position) :=
  Stmt.mapAll (fun _ => {}) ss

namespace Stmt

variable (pos : Position) (e : Expr Position) (s s' : Stmt Position)

lemma unplaced_block (ss : List (Stmt Position)) :
    (block pos ss).unplaced = .block {} (allUnplaced ss) := by
  rw [unplaced, map, allUnplaced]

lemma unplaced_declare (type : TypeName) (name : String) (init : Option (Expr Position)) :
    (declare pos type name init).unplaced
      = .declare {} type name (init.map Expr.unplaced) := by
  rw [unplaced, map]
  rfl

lemma unplaced_assign (pos' : Position) (target : Path) (op : AssignOp) :
    (assign pos pos' target op e).unplaced = .assign {} {} target op e.unplaced := by
  rw [unplaced, map]
  rfl

lemma unplaced_when : (Stmt.when pos e s).unplaced = .when {} e.unplaced s.unplaced := by
  rw [unplaced, map]
  rfl

lemma unplaced_branch :
    (branch pos e s s').unplaced = .branch {} e.unplaced s.unplaced s'.unplaced := by
  rw [unplaced, map]
  rfl

end Stmt

/-- The same program with its statements at no place. -/
def Program.unplaced (p : Program Position) : Program Position := p.map fun _ => {}

lemma Program.allBare_unplaced (p : Program Position) :
    Stmt.allBare p.unplaced.body = Stmt.allBare p.body := Stmt.mapAll_mapAll _ _ p.body

/-- Reading a tree of a statement does not look at places. -/
def Tree.ReadsStmtBlind (t : Tree) : Prop :=
  ∀ p, p.isStmt = true → t.IsA p →
    readStmt t.unplaced = Reading.unplaced Stmt.unplaced (readStmt t)

lemma readBlock_unplaced {ts : List Tree} (hstmts : ∀ t ∈ ts, t.IsA .stmt)
    (h : ∀ t ∈ ts, t.ReadsStmtBlind) {closing : List Tree}
    (hclosing : closing = [] ∨ ∃ t, closing = [.leaf t]) :
    readBlock ((ts ++ closing).map Tree.unplaced)
      = Reading.unplaced Stmt.allUnplaced (readBlock (ts ++ closing)) := by
  induction ts with
  | nil =>
      rcases hclosing with rfl | ⟨t, rfl⟩
      · simp only [List.nil_append, List.map_nil, readBlock]
        rfl
      · simp only [List.nil_append, List.map_cons, List.map_nil, Tree.unplaced_leaf, readBlock]
        rfl
  | cons t ts ih =>
      obtain ⟨hstmt, hmore⟩ := List.forall_mem_cons.mp hstmts
      obtain ⟨ht, hreads⟩ := List.forall_mem_cons.mp h
      have hread := ht .stmt rfl hstmt
      obtain ⟨pos, us, rfl, -⟩ := hstmt.node
      rw [Tree.unplaced_node] at hread
      rw [List.cons_append, List.map_cons, Tree.unplaced_node, readBlock, hread,
        ih hmore hreads, readBlock]
      · exact Reading.unplaced_bind fun s => Reading.unplaced_bind fun ss => rfl
      · rintro t ⟨⟩
      · rintro t ⟨⟩

/-- **Derivations of statements are read without a look at places.** -/
lemma Tree.readsStmtBlind (t : Tree) (h : t.Derived) : t.ReadsStmtBlind := by
  induction t using Tree.induction with
  | leaf t =>
      intro p _ hleaf
      cases hleaf
  | node p pos ts ih =>
      replace ih : ∀ t ∈ ts, t.ReadsStmtBlind := fun t ht => ih t ht (h.children t ht)
      rintro q hq ⟨rfl, hts⟩
      cases p with
      | stmt =>
          obtain ⟨inner, below, rfl, hbelow, hinner⟩ := hts.of_stmt_isStmt
          have hread := ih inner (by simp) below hbelow hinner
          simpa only [Tree.unplaced_node, List.map_cons, List.map_nil, readStmt] using hread
      | block =>
          obtain ⟨opening, closing, body, rfl, -, -, hbody⟩ := hts.of_block
          have hread := readBlock_unplaced hbody (fun t ht => ih t (by simp [ht]))
            (.inr ⟨closing, rfl⟩)
          simp only [Tree.unplaced_node, List.map_cons, readStmt, hread]
          exact Reading.unplaced_bind fun ss => congrArg Except.ok (Stmt.unplaced_block pos ss).symm
      | cond =>
          obtain ⟨word, opening, closing, test, yes, -, -, -, htest, hyes, hts⟩ := hts.of_cond
          have hreadtest := htest.readsBlind rfl
          rcases hts with rfl | ⟨other, no, -, hno, rfl⟩
          · have hreadyes := ih yes (by simp) .stmt rfl hyes
            simp only [Tree.unplaced_node, List.map_cons, List.map_nil, readStmt, hreadtest,
              hreadyes]
            exact Reading.unplaced_bind fun e => Reading.unplaced_bind fun s =>
              congrArg Except.ok (Stmt.unplaced_when pos e s).symm
          · have hreadyes := ih yes (by simp) .stmt rfl hyes
            have hreadno := ih no (by simp) .stmt rfl hno
            simp only [Tree.unplaced_node, List.map_cons, List.map_nil, readStmt, hreadtest,
              hreadyes, hreadno]
            exact Reading.unplaced_bind fun e => Reading.unplaced_bind fun s =>
              Reading.unplaced_bind fun s' => congrArg Except.ok (Stmt.unplaced_branch pos e s s').symm
      | decl =>
          obtain ⟨type, name, closing, -, -, -, rfl | ⟨sign, init, -, hinit, rfl⟩⟩ := hts.of_decl
          · simp only [Tree.unplaced_node, Tree.unplaced_leaf, List.map_cons, List.map_nil,
              readStmt]
            exact congrArg Except.ok (Stmt.unplaced_declare pos _ _ none).symm
          · simp only [Tree.unplaced_node, Tree.unplaced_leaf, List.map_cons, List.map_nil,
              readStmt, hinit.readsBlind rfl]
            exact Reading.unplaced_bind fun e =>
              congrArg Except.ok (Stmt.unplaced_declare pos _ _ (some e)).symm
      | assign =>
          obtain ⟨op, closing, target, value, rfl, htarget, -, hvalue, -⟩ := hts.of_assign
          obtain ⟨pos', us, rfl, hus⟩ := htarget.node
          obtain ⟨root, parts, rfl, -⟩ := hus.of_access
          simp only [Tree.unplaced_node, Tree.unplaced_leaf, List.map_cons, List.map_nil, readStmt,
            readPath_unplaced, hvalue.readsBlind rfl]
          exact Reading.unplaced_bind fun e =>
            congrArg Except.ok (Stmt.unplaced_assign pos e pos' _ _).symm
      | _ => cases hq

lemma Tree.IsA.readsProgramBlind {t : Tree} (h : t.IsA .program) :
    readProgram t.unplaced = Reading.unplaced Program.unplaced (readProgram t) := by
  obtain ⟨pos, ts, rfl, hts⟩ := h.node
  have hstmts := hts.of_many_rule
  have hread := readBlock_unplaced hstmts
    (fun t ht => t.readsStmtBlind (hstmts t ht).derived) (.inl rfl)
  rw [List.append_nil] at hread
  rw [Tree.unplaced_node, readProgram, hread, readProgram]
  exact Reading.unplaced_bind fun ss => rfl

/-! ## Whole texts

Two texts with the same tokens up to places have the same reading up to places.  Errors are not
compared, as they also show a line of the text.
-/

section Texts

variable {β : Type} {p : Production} {read : Tree → Reading β} {f : β → β} {src src' : String}
  {tokens tokens' : List Token}

/-- What is read from a text, places aside, is what is read from its tokens without places. -/
lemma parseWith_unplaced
    (hread : ∀ t : Tree, t.IsA p → read t.unplaced = Reading.unplaced f (read t))
    (hlex : lex src.toList = .ok tokens) :
    (parseWith p read src).toOption.map f
      = (parseTree p (tokens.map Token.unplaced)).toOption.bind fun t => (read t).toOption := by
  obtain ⟨ts, last, rfl, hkind, htext, hts⟩ := lex_ok hlex
  rw [parseTree_unplaced]
  simp only [parseWith, hlex]
  cases htree : parseTree p (ts ++ [last]) with
  | error u => rfl
  | ok t =>
      have hisA := (derivationOf_of_parseTree htree hts ⟨hkind, htext⟩).isA
      simp only [Except.toOption, Option.map_some, Option.bind_some, hread t hisA]
      rcases read t <;> rfl

/-- **Places decide nothing**: texts whose tokens have the same kinds and texts are read alike. -/
theorem parseWith_alike
    (hread : ∀ t : Tree, t.IsA p → read t.unplaced = Reading.unplaced f (read t))
    (hlex : lex src.toList = .ok tokens) (hlex' : lex src'.toList = .ok tokens')
    (hsame : tokens'.map Token.unplaced = tokens.map Token.unplaced) :
    (parseWith p read src').toOption.map f = (parseWith p read src).toOption.map f := by
  rw [parseWith_unplaced hread hlex, parseWith_unplaced hread hlex', hsame]

lemma Expr.parse_alike (hlex : lex src.toList = .ok tokens) (hlex' : lex src'.toList = .ok tokens')
    (hsame : tokens'.map Token.unplaced = tokens.map Token.unplaced) :
    (Expr.parse src').toOption.map Expr.bare = (Expr.parse src).toOption.map Expr.bare := by
  have hbare : (Expr.bare : Expr Position → Expr Unit) = Expr.bare ∘ Expr.unplaced :=
    funext fun e => e.bare_unplaced.symm
  have halike := parseWith_alike (fun t ht => ht.readsBlind (p := .expr) rfl) hlex hlex' hsame
  rw [hbare, ← Option.map_map, ← Option.map_map]
  exact congrArg (Option.map Expr.bare) halike

lemma Program.parse_alike (hlex : lex src.toList = .ok tokens)
    (hlex' : lex src'.toList = .ok tokens')
    (hsame : tokens'.map Token.unplaced = tokens.map Token.unplaced) :
    (Program.parse src').toOption.map (fun p => Stmt.allBare p.body)
      = (Program.parse src).toOption.map fun p => Stmt.allBare p.body := by
  have hbare : (fun p : Program Position => Stmt.allBare p.body)
      = (fun p => Stmt.allBare p.body) ∘ Program.unplaced :=
    funext fun p => p.allBare_unplaced.symm
  have halike := parseWith_alike (fun t ht => ht.readsProgramBlind) hlex hlex' hsame
  rw [hbare, ← Option.map_map, ← Option.map_map]
  exact congrArg (Option.map fun p => Stmt.allBare p.body) halike

end Texts

end Cellular
