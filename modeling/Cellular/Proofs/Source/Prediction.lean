import Cellular.Proofs.Source.Lookahead
import Cellular.Proofs.Source.Shape
import Cellular.Proofs.Source.Words

/-!
# One token of lookahead decides

At every choice of the grammar the tests for what may come exclude each other, with one exception: a
second branch may belong to any of the conditions that are still open.  So apart from this choice a
derivation is found by looking at the next token.

* `Terminal.apart` are tests that no token passes both of.
* `Production.follow` are the tests for what stands behind a rule, and `Grammar.predicts` checks that
  the next token decides.
* `Tree.NearestElse` are the derivations in which a second branch belongs to the nearest condition,
  and `Tree.Placed` those whose rules carry the place of their first token.
* `Tree.parsed`: such a derivation is parsed from its tokens.

This is the classical argument for predictive parsing, with first tokens and follow tokens, made for
a grammar that is data.  Whether tests exclude each other is a computation, and the claim about all
choices of the grammar is one evaluation of it.  The condition with two branches is left out and has
a proof of its own.  Before a second branch stands a statement that is not open, so that no
condition inside it could have taken the branch; this is what "nearest" means, and it is all that
the proof needs.
-/

namespace Cellular

/-! ## Tests that exclude each other

A token passes a test by its text or by its kind.  The text of a token decides its kind, so a test
for a text and a test for a kind may exclude each other, too.
-/

/-- A token of a text: a word, or the mark of the end. -/
def Token.Proper (t : Token) : Prop := t.Lexical ∨ t.kind = .eof ∧ t.text = ""

lemma Token.Proper.kind_eq {t : Token} (h : t.Proper) : t.kind = wordKind t.text := by
  rcases h with h | ⟨hkind, htext⟩
  · exact h.kind_eq
  · rw [hkind, htext]
    rfl

/-- Tests that no token of a text passes both of. -/
def Terminal.apart : Terminal → Terminal → Bool
  | .text s, .text s' => s ≠ s'
  | .kind k, .kind k' => k ≠ k'
  | .text s, .kind k => wordKind s ≠ k
  | .kind k, .text s => wordKind s ≠ k

lemma Terminal.not_matches_of_apart {a b : Terminal} (h : a.apart b = true) {t : Token}
    (ht : t.Proper) (ha : a.Matches t) : ¬ b.Matches t := by
  intro hb
  have hkind := ht.kind_eq
  cases a <;> cases b <;>
    simp only [Terminal.apart, Terminal.Matches, decide_eq_true_eq, ne_eq] at h ha hb
  · exact h (ha.symm.trans hb)
  · exact h (by rw [← ha, ← hkind, hb])
  · exact h (by rw [← hb, ← hkind, ha])
  · exact h (ha.symm.trans hb)

/-- Every test of one list excludes every test of another. -/
def Terminal.allApart (as bs : List Terminal) : Bool := as.all fun a => bs.all a.apart

/-- The token at the front passes one of the tests. -/
def Ahead (follow : List Terminal) (rest : List Token) : Prop :=
  (rest.headD {}).Proper ∧ ∃ a ∈ follow, a.Matches (rest.headD {})

lemma Ahead.mono {as bs : List Terminal} (h : as ⊆ bs) {rest : List Token} (ha : Ahead as rest) :
    Ahead bs rest := by
  obtain ⟨hproper, a, ha, hmatch⟩ := ha
  exact ⟨hproper, a, h ha, hmatch⟩

/-- What is ahead does not start an expression whose tests it excludes. -/
lemma Ahead.not_starts {follow : List Terminal} {rest : List Token} (h : Ahead follow rest)
    {g : Grammar} (hapart : Terminal.allApart g.first follow = true) :
    ¬ g.Starts (rest.headD {}) := by
  rintro ⟨b, hb, hmatch⟩
  obtain ⟨hproper, a, ha, hmatch'⟩ := h
  rw [Terminal.allApart, List.all_eq_true] at hapart
  exact Terminal.not_matches_of_apart (List.all_eq_true.mp (hapart b hb) a ha) hproper hmatch
    hmatch'

/-! ## What stands behind

An optional part is left out when the next token belongs to what stands behind.  So it has to be
known for each rule what may stand behind it.
-/

/-- The tests for what stands behind an expression. -/
def behindExpr : List Terminal := [.text ")", .text ";", .text ":", .kind .eof]

/-- The tests for what stands behind an operand. -/
def behindOperand : List Terminal := operatorFirst ++ .text "?" :: behindExpr

/-- The tests for what stands behind a statement that is no branch. -/
def behindStmt : List Terminal := stmtFirst ++ [.text "\x7d", .kind .eof]

/-- The tests for what stands behind a rule.  A second branch stands behind a statement only if the
statement does not end with an open condition, so it is not listed for conditions. -/
def Production.follow : Production → List Terminal
  | .program => [.kind .eof]
  | .stmt | .cond => behindStmt
  | .block | .decl | .assign => .text "else" :: behindStmt
  | .expr => behindExpr
  | .chain => .text "?" :: behindExpr
  | .link | .unary | .primary | .cast => behindOperand
  | .access => ["=", "+=", "-=", "*=", "/=", "%="].map .text ++ behindOperand

mutual

/-- The next token decides at every choice inside a grammar expression, if what stands behind it
passes one of the tests `follow`. -/
def Grammar.predicts (follow : List Terminal) : Grammar → Bool
  | .literal _ | .kind _ => true
  | .rule p => p.solid && follow.all (· ∈ p.follow)
  | .seq gs => Grammar.predictsSeq follow gs
  | .alt gs => Grammar.predictsAlt follow gs
  | .optional g => g.solid && Terminal.allApart g.first follow && g.predicts follow
  | .many g => g.solid && Terminal.allApart g.first follow && g.predicts (g.first ++ follow)

/-- The next token decides inside a sequence. -/
def Grammar.predictsSeq (follow : List Terminal) : List Grammar → Bool
  | [] => true
  | g :: gs =>
    g.predicts (Grammar.firstSeq gs ++ if Grammar.headSolid gs then [] else follow) &&
      Grammar.predictsSeq follow gs

/-- The next token decides between alternatives and inside them. -/
def Grammar.predictsAlt (follow : List Terminal) : List Grammar → Bool
  | [] => true
  | g :: gs =>
    g.solid && Terminal.allApart g.first (Grammar.firstAlt gs) && g.predicts follow &&
      Grammar.predictsAlt follow gs

end

/-- **The next token decides at every choice of the grammar** but that of a second branch. -/
lemma Production.predicts_body (p : Production) (h : p ≠ .cond) :
    p.body.predicts p.follow = true := by
  cases p with
  | cond => exact absurd rfl h
  | _ => decide +kernel

/-! ## Derivations of one rule

The lemma is an induction on the derivation of a right-hand side, in which the trees of other rules
are taken as parsed already.
-/

/-- The next token behind a part of a derivation starts what was derived behind it, or stands behind
all of it. -/
lemma Grammar.Derives.ahead {g : Grammar} {ts : List Tree} (h : g.Derives ts)
    (hproper : ∀ t ∈ Tree.leavesAll ts, t.Proper) {follow : List Terminal} {rest : List Token}
    (hrest : Ahead follow rest) :
    Ahead (g.first ++ if g.solid then [] else follow) (Tree.leavesAll ts ++ rest) := by
  cases hleaves : Tree.leavesAll ts with
  | nil =>
      have hsolid : g.solid = false := by
        rw [← Bool.not_eq_true]
        exact fun hsolid => h.leaves_ne_nil hsolid hleaves
      refine hrest.mono ?_
      simp [hsolid]
  | cons t more =>
      obtain ⟨a, ha, hmatch⟩ := h.starts hleaves
      exact ⟨hproper t (by simp [hleaves]), a, List.mem_append_left _ ha, hmatch⟩

/-- The first token of a solid expression passes one of its tests. -/
lemma Grammar.Derives.ahead_first {g : Grammar} {ts : List Tree} (h : g.Derives ts)
    (hproper : ∀ t ∈ Tree.leavesAll ts, t.Proper) (hsolid : g.solid = true) (rest : List Token) :
    Ahead g.first (Tree.leavesAll ts ++ rest) := by
  cases hleaves : Tree.leavesAll ts with
  | nil => exact absurd hleaves (h.leaves_ne_nil hsolid)
  | cons t more => exact ⟨hproper t (by simp [hleaves]), h.starts hleaves⟩

/-- The alternative that starts with the next token is taken. -/
lemma Grammar.Parses.alt {g : Grammar} {gs : List Grammar} (hg : g ∈ gs) {follow : List Terminal}
    (hpredicts : Grammar.predictsAlt follow gs = true) {tokens rest : List Token} {ts : List Tree}
    (hahead : Ahead g.first tokens) (h : g.Parses tokens ts rest) :
    Grammar.Parses (.alt gs) tokens ts rest := by
  induction gs with
  | nil => cases hg
  | cons g' gs ih =>
      simp only [Grammar.predictsAlt, Bool.and_eq_true] at hpredicts
      obtain ⟨⟨⟨hsolid, hapart⟩, -⟩, hmore⟩ := hpredicts
      rcases List.mem_cons.mp hg with rfl | hg
      · exact .altTake h
      · exact .altSkip hsolid ((hahead.mono (Grammar.first_subset_alt hg)).not_starts hapart)
          (ih hg hmore)

lemma Grammar.predicts_of_mem_alt {g : Grammar} {gs : List Grammar} {follow : List Terminal}
    (h : Grammar.predictsAlt follow gs = true) (hg : g ∈ gs) :
    g.solid = true ∧ g.predicts follow = true := by
  induction gs with
  | nil => cases hg
  | cons g' gs ih =>
      simp only [Grammar.predictsAlt, Bool.and_eq_true] at h
      rcases List.mem_cons.mp hg with rfl | hg
      · exact ⟨h.1.1.1, h.1.2⟩
      · exact ih h.2 hg

/-- A statement that ends with a condition without a second branch, to which one could be added. -/
def Tree.isOpen : Tree → Bool
  | .node .stmt _ [inner] => inner.isOpen
  | .node .cond _ [_, _, _, _, _] => true
  | .node .cond _ [_, _, _, _, _, _, no] => no.isOpen
  | _ => false

/-- What may stand behind a tree: what its rule says or, behind a statement that is not open, a
second branch. -/
def Tree.Before (rest : List Token) : Tree → Prop
  | .leaf _ => True
  | .node p pos ts => Ahead p.follow rest ∨
    (p = .stmt ∨ p = .cond) ∧ (Tree.node p pos ts).isOpen = false ∧ Ahead [.text "else"] rest

/-- A tree is parsed from its tokens before all that may stand behind it. -/
def Tree.Parsed : Tree → Prop
  | .leaf _ => True
  | .node p pos ts => p.solid = true → ∀ rest, (Tree.node p pos ts).Before rest →
    (Grammar.rule p).Parses (Tree.leavesAll ts ++ rest) [.node p pos ts] rest

lemma Tree.Parsed.parses {p : Production} {t : Tree} (ht : t.Parsed) (h : t.IsA p)
    (hsolid : p.solid = true) {rest : List Token} (hrest : t.Before rest) :
    (Grammar.rule p).Parses (t.leaves ++ rest) [t] rest := by
  obtain ⟨pos, ts, rfl, -⟩ := h.node
  rw [Tree.leaves_node]
  exact ht hsolid rest hrest

lemma Tree.IsA.before {p : Production} {t : Tree} (h : t.IsA p) {rest : List Token}
    (hrest : Ahead p.follow rest) : t.Before rest := by
  obtain ⟨pos, ts, rfl, -⟩ := h.node
  exact .inl hrest

/-- **A derivation from the right-hand side of a rule is parsed** where the next token decides, if
the trees of other rules in it are. -/
lemma Grammar.Derives.parses {g : Grammar} {ts : List Tree} (h : g.Derives ts)
    (hproper : ∀ t ∈ Tree.leavesAll ts, t.Proper)
    (hrules : ∀ t ∈ ts, t.Parsed) {follow : List Terminal}
    (hpredicts : g.predicts follow = true) {rest : List Token} (hrest : Ahead follow rest) :
    g.Parses (Tree.leavesAll ts ++ rest) ts rest := by
  induction h generalizing follow rest with
  | literal h => exact .literal h
  | kind h => exact .kind h
  | @rule p pos ts _ _ =>
      simp only [Grammar.predicts, Bool.and_eq_true] at hpredicts
      have hsubset : follow ⊆ p.follow := fun a ha => by
        simpa using List.all_eq_true.mp hpredicts.2 a ha
      have hnode := hrules _ List.mem_cons_self hpredicts.1 rest (.inl (hrest.mono hsubset))
      simpa using hnode
  | seqNil => exact .seqNil
  | @seqCons g gs ts us _ tail ihhead ihtail =>
      simp only [Grammar.predicts, Grammar.predictsSeq, Bool.and_eq_true] at hpredicts
      rw [Tree.leavesAll_append, List.forall_mem_append] at hproper
      rw [List.forall_mem_append] at hrules
      have hmid := tail.ahead hproper.2 hrest
      rw [Tree.leavesAll_append, List.append_assoc]
      exact .seqCons (ihhead hproper.1 hrules.1 hpredicts.1 hmid)
        (ihtail hproper.2 hrules.2 hpredicts.2 hrest)
  | @alt g gs ts mem h ih =>
      obtain ⟨hsolid, hg⟩ := Grammar.predicts_of_mem_alt hpredicts mem
      exact .alt mem hpredicts (h.ahead_first hproper hsolid rest)
        (ih hproper hrules hg hrest)
  | absent =>
      simp only [Grammar.predicts, Bool.and_eq_true] at hpredicts
      exact .absent hpredicts.1.1 (hrest.not_starts hpredicts.1.2)
  | present _ ih =>
      simp only [Grammar.predicts, Bool.and_eq_true] at hpredicts
      exact .present (ih hproper hrules hpredicts.2 hrest)
  | manyNil =>
      simp only [Grammar.predicts, Bool.and_eq_true] at hpredicts
      exact .manyNil hpredicts.1.1 (hrest.not_starts hpredicts.1.2)
  | @manyCons g ts us _ tail ihhead ihtail =>
      have hwhole := hpredicts
      simp only [Grammar.predicts, Bool.and_eq_true] at hpredicts
      rw [Tree.leavesAll_append, List.forall_mem_append] at hproper
      rw [List.forall_mem_append] at hrules
      have hmid := tail.ahead hproper.2 hrest
      rw [Tree.leavesAll_append, List.append_assoc]
      exact .manyCons hpredicts.1.1 (ihhead hproper.1 hrules.1 hpredicts.2 hmid)
        (ihtail hproper.2 hrules.2 hwhole hrest)

/-! ## Statements

Conditions need more than the next token, namely that the first branch is not open.
-/

/-- In a condition with two branches the first is not open: the second belongs to the nearest
condition that could have it. -/
def Tree.ElseHere : Tree → Prop
  | .node .cond _ [_, _, _, _, yes, _, _] => yes.isOpen = false
  | _ => True

/-- Every second branch belongs to the nearest open condition. -/
def Tree.NearestElse : Tree → Prop := Tree.Everywhere Tree.ElseHere

lemma Tree.nearestElse_leaf (t : Token) : (Tree.leaf t).NearestElse := by
  rw [Tree.NearestElse, Tree.Everywhere]
  trivial

lemma Tree.nearestElse_node {p : Production} {pos : Position} {ts : List Tree} :
    (Tree.node p pos ts).NearestElse ↔ (Tree.node p pos ts).ElseHere ∧ ∀ t ∈ ts, t.NearestElse :=
  Tree.everywhere_node

/-- A rule carries the place of its first token; without tokens it stands at `last`. -/
def Tree.PlacedHere (last : Position) : Tree → Prop
  | .leaf _ => True
  | .node _ pos ts => pos = ((Tree.leavesAll ts).head?.map Token.pos).getD last

/-- Every rule carries the place of its first token. -/
def Tree.Placed (last : Position) : Tree → Prop := Tree.Everywhere (Tree.PlacedHere last)

/-- A statement is the alternative that its first token shows. -/
lemma stmt_parses {pos : Position} {ts : List Tree} (h : Production.stmt.body.Derives ts)
    (hproper : ∀ t ∈ Tree.leavesAll ts, t.Proper) (hrules : ∀ t ∈ ts, t.Parsed)
    {rest : List Token} (hrest : (Tree.node .stmt pos ts).Before rest) :
    Production.stmt.body.Parses (Tree.leavesAll ts ++ rest) ts rest := by
  obtain ⟨inner, rfl, hinner⟩ := h.of_stmt
  have hparsed := hrules inner List.mem_cons_self
  have hstmt := Production.predicts_body .stmt (by decide)
  -- the next token shows the alternative, if this may stand before `rest`
  have halt : ∀ q, Grammar.rule q ∈ [Grammar.rule .block, .rule .cond, .rule .decl, .rule .assign] →
      inner.IsA q → inner.Before rest →
      Production.stmt.body.Parses (Tree.leavesAll [inner] ++ rest) [inner] rest := by
    intro q hmem hq hbefore
    have hsolid := (Grammar.predicts_of_mem_alt hstmt hmem).1
    have hparses := hparsed.parses hq hsolid hbefore
    have hahead := hparses.derives.ahead_first hproper hsolid rest
    refine .alt hmem hstmt hahead ?_
    simpa using hparses
  have hwide : Ahead (.text "else" :: behindStmt) rest := by
    rcases hrest with hrest | ⟨-, -, hrest⟩
    · exact hrest.mono (List.subset_cons_self _ _)
    · exact hrest.mono (by simp)
  rcases hinner with hq | hq | hq | hq
  · exact halt .block (by simp) hq (hq.before hwide)
  · refine halt .cond (by simp) hq ?_
    obtain ⟨pos', us, rfl, -⟩ := hq.node
    rcases hrest with hrest | ⟨-, hopen, helse⟩
    · exact .inl hrest
    · rw [Tree.isOpen] at hopen
      exact .inr ⟨.inr rfl, hopen, helse⟩
  · exact halt .decl (by simp) hq (hq.before hwide)
  · exact halt .assign (by simp) hq (hq.before hwide)

/-- A statement behind which the next branch or the next statement comes. -/
lemma Tree.IsA.before_branch {t : Tree} (h : t.IsA .stmt) {rest : List Token}
    (hopen : t.isOpen = false) (hrest : Ahead [.text "else"] rest) : t.Before rest := by
  obtain ⟨pos, ts, rfl, -⟩ := h.node
  exact .inr ⟨.inl rfl, hopen, hrest⟩

lemma ahead_cons {t : Token} (ht : t.Proper) {s : String} (hs : t.text = s) {follow : List Terminal}
    (hmem : .text s ∈ follow) (rest : List Token) : Ahead follow (t :: rest) :=
  ⟨ht, .text s, hmem, hs⟩

/-- The branches of a condition are parsed if the first is not open before the second. -/
lemma cond_parses {pos : Position} {ts : List Tree} (h : Production.cond.body.Derives ts)
    (hproper : ∀ t ∈ Tree.leavesAll ts, t.Proper) (hrules : ∀ t ∈ ts, t.Parsed)
    (helse : (Tree.node .cond pos ts).ElseHere) {rest : List Token}
    (hrest : (Tree.node .cond pos ts).Before rest) :
    Production.cond.body.Parses (Tree.leavesAll ts ++ rest) ts rest := by
  obtain ⟨word, opening, closing, test, yes, hword, hopening, hclosing, htest, hyes, hts⟩ :=
    h.of_cond
  -- the part up to the first branch, before any tokens that this branch may stand before
  have hfront : ∀ {us : List Tree} {mid : List Token}, test.Parsed → yes.Parsed →
      closing.Proper → yes.Before mid →
      (Grammar.optional (.seq [.literal "else", .rule .stmt])).Parses mid us rest →
      Production.cond.body.Parses
        (word :: opening :: (test.leaves ++ closing :: (yes.leaves ++ mid)))
        ([.leaf word] ++ ([.leaf opening] ++ ([test] ++ ([.leaf closing] ++
          ([yes] ++ (us ++ []))))))
        rest := by
    intro us mid hptest hpyes hpclosing hmid hus
    have htest' := hptest.parses htest rfl
      (htest.before (ahead_cons hpclosing hclosing (by decide) (yes.leaves ++ mid)))
    exact .seqCons (.literal hword) (.seqCons (.literal hopening) (.seqCons htest'
      (.seqCons (.literal hclosing) (.seqCons (hpyes.parses hyes rfl hmid)
        (.seqCons hus .seqNil)))))
  rcases hts with rfl | ⟨other, no, hother, hno, rfl⟩
  · simp only [Tree.leavesAll_cons, Tree.leaves_leaf, Tree.leavesAll_nil, List.append_nil,
      List.append_assoc, List.cons_append, List.nil_append] at hproper ⊢
    have hahead : Ahead behindStmt rest := by
      rcases hrest with hrest | ⟨-, hopen, -⟩
      · exact hrest
      · cases hopen
    exact hfront (hrules test (by simp)) (hrules yes (by simp)) (hproper closing (by simp))
      (hyes.before hahead) (.absent rfl (hahead.not_starts (by decide +kernel)))
  · simp only [Tree.leavesAll_cons, Tree.leaves_leaf, Tree.leavesAll_nil, List.append_nil,
      List.append_assoc, List.cons_append, List.nil_append] at hproper ⊢
    have hbranch : no.Before rest := by
      rcases hrest with hrest | ⟨-, hopen, hrest⟩
      · exact hno.before hrest
      · exact hno.before_branch hopen hrest
    have hahead : Ahead [.text "else"] (other :: (no.leaves ++ rest)) :=
      ahead_cons (hproper other (by simp)) hother List.mem_cons_self _
    exact hfront (hrules test (by simp)) (hrules yes (by simp)) (hproper closing (by simp))
      (hyes.before_branch helse hahead) (.present (.seqCons (.literal hother)
        (.seqCons ((hrules no (by simp)).parses hno rfl hbranch) .seqNil)))

/-! ## Whole derivations

The induction is on the tree, from the leaves up.
-/

/-- **Derivations are found by the next token** if every second branch belongs to the nearest
condition and every rule carries the place of its first token. -/
lemma Tree.parsed {last : Position} (t : Tree) (hderived : t.Derived) (hplaced : t.Placed last)
    (hnearest : t.NearestElse) (hproper : ∀ k ∈ t.leaves, k.Proper) : t.Parsed := by
  induction t using Tree.induction with
  | leaf t => trivial
  | node p pos ts ih =>
      obtain ⟨hpos, hplaced⟩ := Tree.everywhere_node.mp hplaced
      obtain ⟨helse, hnearest⟩ := Tree.nearestElse_node.mp hnearest
      rw [Tree.leaves_node] at hproper
      have hrules : ∀ t ∈ ts, t.Parsed := fun t ht =>
        ih t ht (hderived.children t ht) (hplaced t ht) (hnearest t ht)
          fun k hk => hproper k (Tree.mem_leavesAll ht hk)
      intro hsolid rest hrest
      have hbody : p.body.Parses (Tree.leavesAll ts ++ rest) ts rest := by
        by_cases hstmt : p = .stmt
        · subst hstmt
          exact stmt_parses hderived hproper hrules hrest
        by_cases hcond : p = .cond
        · subst hcond
          exact cond_parses hderived hproper hrules helse hrest
        · refine Grammar.Derives.parses hderived hproper hrules (p.predicts_body hcond) ?_
          rcases hrest with hrest | ⟨hbranch, -⟩
          · exact hrest
          · exact absurd hbranch (by simp [hstmt, hcond])
      have hfirst : pos = ((Tree.leavesAll ts ++ rest).headD {}).pos := by
        have hne := Grammar.Derives.leaves_ne_nil hderived (p.solid_body.trans hsolid)
        obtain ⟨k, more, hleaves⟩ := List.exists_cons_of_ne_nil hne
        rw [hpos, hleaves]
        rfl
      rw [hfirst]
      exact .rule hbody

/-- **The derivation of a whole text is found**: its tree is that of the text, whose end is marked
by `last`. -/
lemma Tree.IsA.parseTree {p : Production} {t : Tree} (h : t.IsA p) (hend : .kind .eof ∈ p.follow)
    {last : Token} (hlast : last.kind = .eof ∧ last.text = "") (hplaced : t.Placed last.pos)
    (hnearest : t.NearestElse) (hproper : ∀ k ∈ t.leaves, k.Proper) :
    parseTree p (t.leaves ++ [last]) = .ok t := by
  have hahead : Ahead p.follow [last] := ⟨.inr hlast, .kind .eof, hend, hlast.1⟩
  suffices hparses : (Grammar.rule p).Parses (t.leaves ++ [last]) [t] [last] from
    hparses.parseTree hlast.1
  cases hsolid : p.solid with
  | true => exact (t.parsed h.derived hplaced hnearest hproper).parses h hsolid (h.before hahead)
  | false =>
      -- only a program may be empty, and then it stands at the end
      obtain ⟨pos, ts, rfl, hts⟩ := h.node
      obtain ⟨hpos, hplaced⟩ := Tree.everywhere_node.mp hplaced
      obtain ⟨-, hnearest⟩ := Tree.nearestElse_node.mp hnearest
      rw [Tree.leaves_node] at hproper ⊢
      have hrules : ∀ t ∈ ts, t.Parsed := fun t ht =>
        t.parsed (hts.derived t ht) (hplaced t ht) (hnearest t ht)
          fun k hk => hproper k (Tree.mem_leavesAll ht hk)
      have hcond : p ≠ .cond := by
        rintro rfl
        cases hsolid
      have hbody := hts.parses hproper hrules (p.predicts_body hcond) hahead
      have hfirst : pos = ((Tree.leavesAll ts ++ [last]).headD {}).pos := by
        rw [hpos]
        cases Tree.leavesAll ts <;> rfl
      rw [hfirst]
      exact .rule hbody

end Cellular
