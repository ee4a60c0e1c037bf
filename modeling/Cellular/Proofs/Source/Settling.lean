import Cellular.Proofs.Source.Literals
import Cellular.Proofs.Source.Prediction

/-!
# Every derivation can be settled

Two things about a derivation are free: which of the open conditions a second branch belongs to, and
the places that its rules carry.  Both can be settled without touching a token.

* `Tree.placed` gives every rule the place of its first token.
* `Tree.IsA.settle` hands every second branch to the nearest open condition.
* `Tree.IsA.exists_settled` does both.  The tokens stay, and so does what they need to fit.

The two are independent.  Places are replaced in the whole tree by a function.  Handing a branch
over changes the tree: a second branch that belongs to an outer condition, while an inner one is
open, is cut off there and put on the innermost open one.  The tokens are the same, since the branch
stood behind the inner condition in the first place.  The induction is on trees: the branches are
settled first, and then a second induction follows the end of the settled first branch down to the
condition that takes the other one.
-/

namespace Cellular

/-! ## Places

The place of a rule is that of its first token, so it can be computed from the tree.
-/

mutual

/-- The same tree where every rule carries the place of its first token; a rule without tokens
stands at `last`. -/
def Tree.placed (last : Position) : Tree → Tree
  | .leaf t => .leaf t
  | .node p _ ts =>
    .node p (((Tree.leavesAll ts).head?.map Token.pos).getD last) (Tree.placedAll last ts)

/-- The same trees with other places. -/
def Tree.placedAll (last : Position) : List Tree → List Tree
  | [] => []
  | t :: ts => t.placed last :: Tree.placedAll last ts

end

namespace Tree

variable (last : Position)

lemma placedAll_eq_map (ts : List Tree) : placedAll last ts = ts.map (placed last) := by
  induction ts with
  | nil => rw [placedAll, List.map_nil]
  | cons t ts ih => rw [placedAll, ih, List.map_cons]

lemma placed_leaf (t : Token) : (Tree.leaf t).placed last = .leaf t := by rw [placed]

lemma placed_node (p : Production) (pos : Position) (ts : List Tree) :
    (Tree.node p pos ts).placed last =
      .node p (((leavesAll ts).head?.map Token.pos).getD last) (ts.map (placed last)) := by
  rw [placed, placedAll_eq_map]

lemma leavesAll_map_of_forall {f : Tree → Tree} {ts : List Tree}
    (h : ∀ t ∈ ts, (f t).leaves = t.leaves) : leavesAll (ts.map f) = leavesAll ts := by
  induction ts with
  | nil => rfl
  | cons t ts ih =>
      obtain ⟨ht, hts⟩ := List.forall_mem_cons.mp h
      rw [List.map_cons, leavesAll_cons, leavesAll_cons, ht, ih hts]

lemma leaves_placed (t : Tree) : (t.placed last).leaves = t.leaves := by
  induction t using Tree.induction with
  | leaf t => rw [placed_leaf]
  | node p pos ts ih => rw [placed_node, leaves_node, leaves_node, leavesAll_map_of_forall ih]

lemma placed_placed (t : Tree) : (t.placed last).Placed last := by
  induction t using Tree.induction with
  | leaf t =>
      rw [placed_leaf, Placed, Everywhere]
      trivial
  | node p pos ts ih =>
      rw [placed_node]
      refine everywhere_node.mpr ⟨?_, ?_⟩
      · rw [PlacedHere, leavesAll_map_of_forall fun t _ => leaves_placed last t]
      · rw [List.forall_mem_map]
        exact ih

end Tree

/-- Places play no role in derivations. -/
lemma Grammar.Derives.placed (last : Position) {g : Grammar} {ts : List Tree} (h : g.Derives ts) :
    g.Derives (ts.map (Tree.placed last)) := by
  induction h with
  | @literal s t h =>
      rw [List.map_singleton, Tree.placed_leaf]
      exact .literal h
  | @kind k t h =>
      rw [List.map_singleton, Tree.placed_leaf]
      exact .kind h
  | rule _ ih =>
      rw [List.map_singleton, Tree.placed_node]
      exact .rule ih
  | seqNil => exact .seqNil
  | seqCons _ _ ih₁ ih₂ =>
      rw [List.map_append]
      exact .seqCons ih₁ ih₂
  | alt mem _ ih => exact .alt mem ih
  | absent => exact .absent
  | present _ ih => exact .present ih
  | manyNil => exact .manyNil
  | manyCons _ _ ih₁ ih₂ =>
      rw [List.map_append]
      exact .manyCons ih₁ ih₂

namespace Tree

variable (last : Position)

lemma IsA.placed {p : Production} {t : Tree} (h : t.IsA p) : (t.placed last).IsA p := by
  obtain ⟨pos, ts, rfl, hts⟩ := h.node
  rw [placed_node]
  exact ⟨rfl, hts.placed last⟩

lemma isOpen_of_ne {p : Production} (hstmt : p ≠ .stmt) (hcond : p ≠ .cond) (pos : Position)
    (ts : List Tree) : (Tree.node p pos ts).isOpen = false := by
  rw [isOpen] <;> simp [hstmt, hcond]

lemma isOpen_placed {t : Tree} (h : t.Derived) : (t.placed last).isOpen = t.isOpen := by
  induction t using Tree.induction with
  | leaf t => rw [placed_leaf]
  | node p pos ts ih =>
      replace ih : ∀ t ∈ ts, (t.placed last).isOpen = t.isOpen := fun t ht =>
        ih t ht (h.children t ht)
      rw [placed_node]
      by_cases hstmt : p = .stmt
      · subst hstmt
        obtain ⟨inner, rfl, -⟩ := Grammar.Derives.of_stmt h
        simp [isOpen, ih]
      by_cases hcond : p = .cond
      · subst hcond
        obtain ⟨word, opening, closing, test, yes, -, -, -, -, -, rfl | ⟨other, no, -, -, rfl⟩⟩ :=
          Grammar.Derives.of_cond h
        · simp [isOpen]
        · simp [isOpen, ih]
      · rw [isOpen_of_ne hstmt hcond, isOpen_of_ne hstmt hcond]

lemma elseHere_of_ne {p : Production} (hcond : p ≠ .cond) (pos : Position) (ts : List Tree) :
    (Tree.node p pos ts).ElseHere := by
  rw [ElseHere]
  · trivial
  · simp [hcond]

lemma NearestElse.placed {t : Tree} (h : t.Derived) (hnearest : t.NearestElse) :
    (t.placed last).NearestElse := by
  induction t using Tree.induction with
  | leaf t => rwa [placed_leaf]
  | node p pos ts ih =>
      obtain ⟨helse, hbelow⟩ := nearestElse_node.mp hnearest
      rw [placed_node]
      refine nearestElse_node.mpr ⟨?_, ?_⟩
      · by_cases hcond : p = .cond
        · subst hcond
          obtain ⟨word, opening, closing, test, yes, -, -, -, -, -, rfl | ⟨other, no, -, -, rfl⟩⟩ :=
            Grammar.Derives.of_cond h
          · trivial
          · exact (isOpen_placed last (h.children yes (by simp))).trans helse
        · exact elseHere_of_ne hcond _ _
      · rw [List.forall_mem_map]
        exact fun t ht => ih t ht (h.children t ht) (hbelow t ht)

lemma fits_placed {t : Tree} (h : t.Derived) (minus : Bool) :
    (t.placed last).Fits minus ↔ t.Fits minus := by
  induction t using Tree.induction generalizing minus with
  | leaf t => rw [placed_leaf]
  | node p pos ts ih =>
      replace ih : ∀ t ∈ ts, ∀ minus, (t.placed last).Fits minus ↔ t.Fits minus :=
        fun t ht minus => ih t ht (h.children t ht) minus
      rw [placed_node]
      by_cases hunary : p = .unary
      · subst hunary
        rcases Grammar.Derives.of_unary h with ⟨op, operand, rfl, -⟩ | ⟨primary, rfl, -⟩
        · simp [placed_leaf, Fits, ih]
        · simp [Fits, ih]
      by_cases hprimary : p = .primary
      · subst hprimary
        rcases Grammar.Derives.of_primary h with ⟨t, rfl, -⟩ | ⟨cast, rfl, hcast⟩ |
          ⟨access, rfl, haccess⟩ | ⟨opening, closing, inner, rfl, -⟩
        · simp [placed_leaf, Fits]
        · rw [List.map_singleton, (hcast.placed last).fits_primary, hcast.fits_primary]
          exact ih cast (by simp) false
        · rw [List.map_singleton, (haccess.placed last).fits_primary, haccess.fits_primary]
          exact ih access (by simp) false
        · simp [placed_leaf, Fits, AllFit, ih]
      · rw [fits_node hunary hprimary, fits_node hunary hprimary, List.forall_mem_map]
        exact forall₂_congr fun t ht => ih t ht false

end Tree

/-! ## Trees without branches

Below an expression there is no statement.  That is read off the grammar, by the rules that it
mentions.
-/

mutual

/-- The rules that a grammar expression names. -/
def Grammar.mentions : Grammar → List Production
  | .literal _ | .kind _ => []
  | .rule p => [p]
  | .seq gs | .alt gs => Grammar.mentionsAll gs
  | .optional g | .many g => g.mentions

/-- The rules that several grammar expressions name. -/
def Grammar.mentionsAll : List Grammar → List Production
  | [] => []
  | g :: gs => g.mentions ++ Grammar.mentionsAll gs

end

lemma Grammar.mentions_subset_alt {g : Grammar} {gs : List Grammar} (hg : g ∈ gs) :
    g.mentions ⊆ mentionsAll gs := by
  induction gs with
  | nil => cases hg
  | cons g' gs ih =>
      rw [mentionsAll]
      rcases List.mem_cons.mp hg with rfl | hg
      · exact List.subset_append_left _ _
      · exact List.subset_append_of_subset_right _ (ih hg)

/-- What a grammar expression derives are tokens and trees of the rules that it names. -/
lemma Grammar.Derives.mentioned {g : Grammar} {ts : List Tree} (h : g.Derives ts) :
    ∀ t ∈ ts, (∃ k, t = .leaf k) ∨ ∃ p ∈ g.mentions, t.IsA p := by
  induction h with
  | literal _ => simp
  | kind _ => simp
  | @rule p pos ts h _ =>
      simp only [List.forall_mem_singleton]
      exact .inr ⟨p, by simp [Grammar.mentions], rfl, h⟩
  | seqNil => simp
  | @seqCons g gs ts us _ _ ih₁ ih₂ =>
      rw [Grammar.mentions, Grammar.mentionsAll, List.forall_mem_append]
      refine ⟨fun t ht => (ih₁ t ht).imp_right ?_, fun t ht => (ih₂ t ht).imp_right ?_⟩
      · rintro ⟨p, hp, h⟩
        exact ⟨p, List.mem_append_left _ hp, h⟩
      · rintro ⟨p, hp, h⟩
        exact ⟨p, List.mem_append_right _ hp, h⟩
  | alt mem _ ih =>
      refine fun t ht => (ih t ht).imp_right ?_
      rintro ⟨p, hp, h⟩
      exact ⟨p, Grammar.mentions_subset_alt mem hp, h⟩
  | absent => simp
  | present _ ih => exact ih
  | manyNil => simp
  | manyCons _ _ ih₁ ih₂ => exact List.forall_mem_append.mpr ⟨ih₁, ih₂⟩

/-- The rules below which no statement stands. -/
def Production.isFlat : Production → Bool
  | .program | .stmt | .block | .cond => false
  | _ => true

lemma Production.isFlat_mentions {p : Production} (h : p.isFlat = true) :
    ∀ q ∈ p.body.mentions, q.isFlat = true := by
  cases p with
  | program | stmt | block | cond => cases h
  | _ => decide

/-- Without statements there are no branches to be handed over. -/
lemma Tree.IsA.nearestElse {p : Production} (hp : p.isFlat = true) {t : Tree} (h : t.IsA p) :
    t.NearestElse := by
  induction t using Tree.induction generalizing p with
  | leaf t => cases h
  | node q pos ts ih =>
      obtain ⟨rfl, hts⟩ := h
      refine Tree.nearestElse_node.mpr ⟨Tree.elseHere_of_ne (by rintro rfl; cases hp) pos ts, ?_⟩
      intro t ht
      rcases hts.mentioned t ht with ⟨k, rfl⟩ | ⟨p, hmem, hisA⟩
      · exact Tree.nearestElse_leaf k
      · exact ih t ht (Production.isFlat_mentions hp p hmem) hisA

/-! ## Branches

Whether numerals fit depends on the tokens and on signs before them, neither of which is touched.
-/

/-- A tree of the rule `p` with the tokens `tokens` whose second branches belong to the nearest
conditions and whose numerals fit if `fit` holds. -/
structure Tree.Settled (p : Production) (tokens : List Token) (fit : Prop) (t : Tree) : Prop where
  isA : t.IsA p
  leaves : t.leaves = tokens
  nearest : t.NearestElse
  fits : fit → t.Fits false

namespace Tree.Settled

variable {tokens others : List Token} {P Q : Prop} {pos : Position} {word opening closing : Token}
  {test yes no : Tree}

lemma congr {p : Production} {t : Tree} (h : t.Settled p tokens P) (htokens : tokens = others)
    (hPQ : Q → P) : t.Settled p others Q :=
  ⟨h.isA, h.leaves.trans htokens, h.nearest, fun hQ => h.fits (hPQ hQ)⟩

/-- A tree without statements is settled as it is. -/
lemma of_isFlat {p : Production} (hp : p.isFlat = true) {t : Tree} (h : t.IsA p) :
    t.Settled p t.leaves (t.Fits false) :=
  ⟨h, rfl, h.nearestElse hp, id⟩

lemma stmt {q : Production}
    (hq : Grammar.rule q ∈ [.rule .block, .rule .cond, .rule .decl, .rule .assign]) {inner : Tree}
    (h : inner.Settled q tokens P) (pos : Position) :
    (Tree.node .stmt pos [inner]).Settled .stmt tokens P where
  isA := ⟨rfl, .alt hq h.isA.derives⟩
  leaves := by simpa using h.leaves
  nearest := Tree.nearestElse_node.mpr ⟨trivial, List.forall_mem_singleton.mpr h.nearest⟩
  fits hP := by
    rw [Tree.fits_node (by decide) (by decide)]
    simpa using h.fits hP

/-- A condition with one branch. -/
lemma when (hword : word.text = "if") (hopening : opening.text = "(")
    (hclosing : closing.text = ")") (htest : test.IsA .expr) (hyes : yes.Settled .stmt tokens P) (pos : Position) :
    (Tree.node .cond pos [.leaf word, .leaf opening, test, .leaf closing, yes]).Settled .cond
      (word :: opening :: (test.leaves ++ closing :: tokens)) (test.Fits false ∧ P) where
  isA := ⟨rfl, .seqCons (.literal hword) (.seqCons (.literal hopening) (.seqCons htest.derives
    (.seqCons (.literal hclosing) (.seqCons hyes.isA.derives (.seqCons .absent .seqNil)))))⟩
  leaves := by simp [hyes.leaves]
  nearest := by
    refine Tree.nearestElse_node.mpr ⟨trivial, ?_⟩
    simp [Tree.nearestElse_leaf, htest.nearestElse rfl, hyes.nearest]
  fits := by
    rintro ⟨htestfits, hP⟩
    rw [Tree.fits_node (by decide) (by decide)]
    simp [Tree.fits_leaf, htestfits, hyes.fits hP]

/-- A condition with two branches, the first of which is not open. -/
lemma branch (hword : word.text = "if") (hopening : opening.text = "(")
    (hclosing : closing.text = ")") (htest : test.IsA .expr) (hyes : yes.Settled .stmt tokens P)
    (hopen : yes.isOpen = false) {other : Token} (hother : other.text = "else")
    (hno : no.Settled .stmt others Q) (pos : Position) :
    (Tree.node .cond pos
      [.leaf word, .leaf opening, test, .leaf closing, yes, .leaf other, no]).Settled .cond
      (word :: opening :: (test.leaves ++ closing :: (tokens ++ other :: others)))
      (test.Fits false ∧ P ∧ Q) where
  isA := ⟨rfl, .seqCons (.literal hword) (.seqCons (.literal hopening) (.seqCons htest.derives
    (.seqCons (.literal hclosing) (.seqCons hyes.isA.derives (.seqCons (.present
      (.seqCons (.literal hother) (.seqCons hno.isA.derives .seqNil))) .seqNil)))))⟩
  leaves := by simp [hyes.leaves, hno.leaves]
  nearest := by
    refine Tree.nearestElse_node.mpr ⟨hopen, ?_⟩
    simp [Tree.nearestElse_leaf, htest.nearestElse rfl, hyes.nearest, hno.nearest]
  fits := by
    rintro ⟨htestfits, hP, hQ⟩
    rw [Tree.fits_node (by decide) (by decide)]
    simp [Tree.fits_leaf, htestfits, hyes.fits hP, hno.fits hQ]

end Tree.Settled

/-- A second branch behind an open statement goes to the innermost condition that lacks one.  The
induction follows the end of the statement down to this condition. -/
lemma Tree.Settled.attach {other : Token} (hother : other.text = "else") {no : Tree}
    {others : List Token} {Q : Prop} (hno : no.Settled .stmt others Q) (t : Tree) {p : Production}
    (hp : p = .stmt ∨ p = .cond) (ht : t.IsA p) (hnearest : t.NearestElse)
    (hopen : t.isOpen = true) :
    ∃ t' : Tree, t'.Settled p (t.leaves ++ other :: others) (t.Fits false ∧ Q) := by
  induction t using Tree.induction generalizing p with
  | leaf t => cases ht
  | node q pos ts ih =>
      obtain ⟨rfl, hts⟩ := ht
      obtain ⟨helse, hbelow⟩ := Tree.nearestElse_node.mp hnearest
      rw [Tree.leaves_node]
      rcases hp with rfl | rfl
      · rw [Tree.fits_node (by decide) (by decide)]
        obtain ⟨inner, rfl, hinner⟩ := hts.of_stmt
        rw [Tree.isOpen] at hopen
        have hcond : inner.IsA .cond := by
          rcases hinner with h | h | h | h
          · obtain ⟨_, _, rfl, -⟩ := h.node
            exact absurd hopen (by simp [Tree.isOpen_of_ne])
          · exact h
          · obtain ⟨_, _, rfl, -⟩ := h.node
            exact absurd hopen (by simp [Tree.isOpen_of_ne])
          · obtain ⟨_, _, rfl, -⟩ := h.node
            exact absurd hopen (by simp [Tree.isOpen_of_ne])
        obtain ⟨inner', hinner'⟩ :=
          ih inner (by simp) (.inr rfl) hcond (hbelow inner (by simp)) hopen
        exact ⟨_, (hinner'.stmt (by simp) pos).congr (by simp) (by simp)⟩
      · rw [Tree.fits_node (by decide) (by decide)]
        obtain ⟨word, opening, closing, test, yes, hword, hopening, hclosing, htest, hyes, hts⟩ :=
          hts.of_cond
        rcases hts with rfl | ⟨other', no', hother', hno', rfl⟩
        · cases hyesopen : yes.isOpen with
          | true =>
              obtain ⟨yes', hyes'⟩ :=
                ih yes (by simp) (.inl rfl) hyes (hbelow yes (by simp)) hyesopen
              refine ⟨_, (hyes'.when hword hopening hclosing htest pos).congr (by simp) ?_⟩
              simp only [List.mem_cons, List.not_mem_nil, forall_eq_or_imp]
              tauto
          | false =>
              have hyes' : yes.Settled .stmt yes.leaves (yes.Fits false) :=
                ⟨hyes, rfl, hbelow yes (by simp), id⟩
              refine ⟨_, (hyes'.branch hword hopening hclosing htest hyesopen hother hno pos).congr
                (by simp) ?_⟩
              simp only [List.mem_cons, List.not_mem_nil, forall_eq_or_imp]
              tauto
        · obtain ⟨no'', hno''⟩ := ih no' (by simp) (.inl rfl) hno' (hbelow no' (by simp)) hopen
          have hyes' : yes.Settled .stmt yes.leaves (yes.Fits false) :=
            ⟨hyes, rfl, hbelow yes (by simp), id⟩
          refine ⟨_, (hyes'.branch hword hopening hclosing htest helse hother' hno'' pos).congr
            (by simp) ?_⟩
          simp only [List.mem_cons, List.not_mem_nil, forall_eq_or_imp]
          tauto

/-- Statements that can all be settled can be settled in a row. -/
lemma exists_settled_all {ts : List Tree}
    (h : ∀ t ∈ ts, ∃ t' : Tree, t'.Settled .stmt t.leaves (t.Fits false)) :
    ∃ ts' : List Tree, (∀ t' ∈ ts', t'.IsA .stmt) ∧ Tree.leavesAll ts' = Tree.leavesAll ts ∧
      (∀ t' ∈ ts', t'.NearestElse) ∧ ((∀ t ∈ ts, t.Fits false) → ∀ t' ∈ ts', t'.Fits false) := by
  induction ts with
  | nil => exact ⟨[], by simp, rfl, by simp, by simp⟩
  | cons t ts ih =>
      obtain ⟨ht, hts⟩ := List.forall_mem_cons.mp h
      obtain ⟨t', ht'⟩ := ht
      obtain ⟨ts', hisA, hleaves, hnearest, hfits⟩ := ih hts
      refine ⟨t' :: ts', ?_, ?_, ?_, ?_⟩
      · exact List.forall_mem_cons.mpr ⟨ht'.isA, hisA⟩
      · rw [Tree.leavesAll_cons, Tree.leavesAll_cons, ht'.leaves, hleaves]
      · exact List.forall_mem_cons.mpr ⟨ht'.nearest, hnearest⟩
      · intro hfit
        obtain ⟨hfirst, hmore⟩ := List.forall_mem_cons.mp hfit
        exact List.forall_mem_cons.mpr ⟨ht'.fits hfirst, hfits hmore⟩

/-- A repetition of a rule derives every list of its trees. -/
lemma Grammar.Derives.many_rule {p : Production} {ts : List Tree} (h : ∀ t ∈ ts, t.IsA p) :
    (Grammar.many (.rule p)).Derives ts := by
  induction ts with
  | nil => exact .manyNil
  | cons t ts ih =>
      obtain ⟨ht, hts⟩ := List.forall_mem_cons.mp h
      exact .manyCons ht.derives (ih hts)

/-- **Every second branch can be handed to the nearest condition** without touching a token. -/
lemma Tree.IsA.settle {t : Tree} {p : Production} (hp : p.isStmt = true) (h : t.IsA p) :
    ∃ t' : Tree, t'.Settled p t.leaves (t.Fits false) := by
  induction t using Tree.induction generalizing p with
  | leaf t => cases h
  | node q pos ts ih =>
      have hself := h
      obtain ⟨rfl, hts⟩ := h
      cases q with
      | stmt =>
          obtain ⟨inner, rfl, hinner⟩ := hts.of_stmt
          rw [Tree.leaves_node, Tree.fits_node (by decide) (by decide)]
          rcases hinner with h | h | h | h
          all_goals
            obtain ⟨inner', hinner'⟩ := ih inner (by simp) rfl h
            exact ⟨_, (hinner'.stmt (by simp) pos).congr (by simp) (by simp)⟩
      | block =>
          obtain ⟨opening, closing, body, rfl, hopening, hclosing, hbody⟩ := hts.of_block
          obtain ⟨body', hisA, hleaves, hnearest, hfits⟩ :=
            exists_settled_all fun t ht => ih t (by simp [ht]) rfl (hbody t ht)
          refine ⟨.node .block pos (.leaf opening :: (body' ++ [.leaf closing])), ?_, ?_, ?_, ?_⟩
          · exact ⟨rfl, .seqCons (.literal hopening) (.seqCons (.many_rule hisA)
              (.seqCons (.literal hclosing) .seqNil))⟩
          · simp [hleaves]
          · refine Tree.nearestElse_node.mpr ⟨trivial, ?_⟩
            simpa [Tree.nearestElse_leaf, or_imp, forall_and] using hnearest
          · rw [Tree.fits_node (by decide) (by decide), Tree.fits_node (by decide) (by decide)]
            simpa [Tree.fits_leaf, or_imp, forall_and] using hfits
      | cond =>
          obtain ⟨word, opening, closing, test, yes, hword, hopening, hclosing, htest, hyes, hts⟩ :=
            hts.of_cond
          rw [Tree.leaves_node, Tree.fits_node (by decide) (by decide)]
          rcases hts with rfl | ⟨other, no, hother, hno, rfl⟩
          · obtain ⟨yes', hyes'⟩ := ih yes (by simp) rfl hyes
            refine ⟨_, (hyes'.when hword hopening hclosing htest pos).congr (by simp) ?_⟩
            simp only [List.mem_cons, List.not_mem_nil, forall_eq_or_imp]
            tauto
          · obtain ⟨yes', hyes'⟩ := ih yes (by simp) rfl hyes
            obtain ⟨no', hno'⟩ := ih no (by simp) rfl hno
            cases hopen : yes'.isOpen with
            | true =>
                -- the branch moves into the first one, and the condition is left with one
                obtain ⟨yes'', hyes''⟩ :=
                  hno'.attach hother yes' (.inl rfl) hyes'.isA hyes'.nearest hopen
                refine ⟨_, (hyes''.when hword hopening hclosing htest pos).congr
                  (by simp [hyes'.leaves]) ?_⟩
                have hfits := hyes'.fits
                simp only [List.mem_cons, List.not_mem_nil, forall_eq_or_imp]
                tauto
            | false =>
                refine ⟨_, (hyes'.branch hword hopening hclosing htest hopen hother hno' pos).congr
                  (by simp) ?_⟩
                simp only [List.mem_cons, List.not_mem_nil, forall_eq_or_imp]
                tauto
      | decl => exact ⟨_, .of_isFlat rfl hself⟩
      | assign => exact ⟨_, .of_isFlat rfl hself⟩
      | _ => cases hp

/-- Programs are settled statement by statement. -/
lemma Tree.IsA.settle_program {t : Tree} (h : t.IsA .program) :
    ∃ t' : Tree, t'.Settled .program t.leaves (t.Fits false) := by
  obtain ⟨pos, ts, rfl, hts⟩ := h.node
  obtain ⟨ts', hisA, hleaves, hnearest, hfits⟩ :=
    exists_settled_all fun t ht => (hts.of_many_rule t ht).settle rfl
  refine ⟨.node .program pos ts', ⟨rfl, .many_rule hisA⟩, ?_, ?_, ?_⟩
  · simp [hleaves]
  · exact Tree.nearestElse_node.mpr ⟨trivial, hnearest⟩
  · rwa [Tree.fits_node (by decide) (by decide), Tree.fits_node (by decide) (by decide)]

/-- **Every derivation of a program or an expression can be settled**: the same tokens have a
derivation with nearest branches and right places. -/
lemma Tree.IsA.exists_settled {p : Production} (hp : p = .program ∨ p = .expr) {t : Tree}
    (h : t.IsA p) (last : Position) :
    ∃ t' : Tree, t'.Settled p t.leaves (t.Fits false) ∧ t'.Placed last := by
  obtain ⟨t', ht'⟩ : ∃ t' : Tree, t'.Settled p t.leaves (t.Fits false) := by
    rcases hp with rfl | rfl
    · exact h.settle_program
    · exact ⟨t, .of_isFlat rfl h⟩
  refine ⟨t'.placed last, ⟨ht'.isA.placed last, ?_, ht'.nearest.placed last ht'.isA.derived, ?_⟩,
    t'.placed_placed last⟩
  · rw [Tree.leaves_placed, ht'.leaves]
  · rw [Tree.fits_placed last ht'.isA.derived]
    exact ht'.fits

end Cellular
