import Cellular.Proofs.Source.Derivation

/-!
# What one token of lookahead finds

The recogniser decides by the next token alone whether to try a grammar expression.  Where this
token decides rightly, the walk needs no account of diagnostics and fuel.

* `Grammar.first` are the tests for the first token of what a grammar expression derives.  A `solid`
  expression takes a token at once, so it does not match where none of its tests succeeds
  (`recogniserRefuses`).
* `Grammar.Parses` is the walk of the recogniser by these tests.
* `Grammar.reserve` bounds the depth of the walk between two tokens, and `Grammar.Parses.walks` says
  that with fuel for its tokens the recogniser finds what parses.

A walk by first tokens is easier to reason about than the recogniser: it is an inductive relation
without fuel, diagnostics and cursors.  It leaves something out, too, since a recogniser that has
begun an alternative may come back from it.  Where the tests decide, that never happens.  So the
relation is a lower bound for what the recogniser finds, and in the next module every derivation
with nearest branches is shown to be in it.
-/

namespace Cellular

/-! ## First tokens

The tests are listed for each rule and checked against the right-hand sides, which refer to each
other.
-/

/-- What one token is tested for. -/
inductive Terminal where
  | text (s : String)
  | kind (k : TokenKind)
deriving Repr, DecidableEq

/-- A token passes a test. -/
def Terminal.Matches (a : Terminal) (t : Token) : Prop :=
  match a with
  | .text s => t.text = s
  | .kind k => t.kind = k

instance (a : Terminal) (t : Token) : Decidable (a.Matches t) :=
  match a with
  | .text s => inferInstanceAs (Decidable (t.text = s))
  | .kind k => inferInstanceAs (Decidable (t.kind = k))

/-- The tests for the first token of an operand. -/
def operandFirst : List Terminal :=
  [.text "!", .text "-", .kind .float, .kind .int, .text "true", .text "false", .text "int",
    .text "float", .text "bool", .kind .ident, .text "("]

/-- The tests for the first token of a statement. -/
def stmtFirst : List Terminal :=
  [.text "\x7b", .text "if", .text "bool", .text "int", .text "float", .kind .ident]

/-- The tests for a binary operator. -/
def operatorFirst : List Terminal :=
  ["||", "&&", "==", "!=", "<=", ">=", "<", ">", "+", "-", "*", "/", "%"].map .text

/-- The tests for the first token of what a rule derives. -/
def Production.first : Production → List Terminal
  | .program | .stmt => stmtFirst
  | .block => [.text "\x7b"]
  | .cond => [.text "if"]
  | .decl => [.text "bool", .text "int", .text "float"]
  | .assign | .access => [.kind .ident]
  | .expr | .chain | .unary => operandFirst
  | .link => operatorFirst
  | .primary => operandFirst.drop 2
  | .cast => [.text "int", .text "float", .text "bool"]

/-- Whether a rule derives no empty text. -/
def Production.solid (p : Production) : Bool := p ≠ .program

mutual

/-- Whether a grammar expression takes a token at once. -/
def Grammar.solid : Grammar → Bool
  | .literal _ | .kind _ => true
  | .rule p => p.solid
  | .seq gs => Grammar.headSolid gs
  | .alt gs => Grammar.allSolid gs
  | .optional _ | .many _ => false

/-- Whether the first of several grammar expressions is solid. -/
def Grammar.headSolid : List Grammar → Bool
  | [] => false
  | g :: _ => g.solid

/-- Whether several grammar expressions are all solid. -/
def Grammar.allSolid : List Grammar → Bool
  | [] => true
  | g :: gs => g.solid && Grammar.allSolid gs

end

mutual

/-- The tests for the first token of what a grammar expression derives. -/
def Grammar.first : Grammar → List Terminal
  | .literal s => [.text s]
  | .kind k => [.kind k]
  | .rule p => p.first
  | .seq gs => Grammar.firstSeq gs
  | .alt gs => Grammar.firstAlt gs
  | .optional g | .many g => g.first

/-- The tests for the first token of a sequence.  Those of an item count up to the first item that
is solid. -/
def Grammar.firstSeq : List Grammar → List Terminal
  | [] => []
  | g :: gs => g.first ++ if g.solid then [] else Grammar.firstSeq gs

/-- The tests for the first token of a choice. -/
def Grammar.firstAlt : List Grammar → List Terminal
  | [] => []
  | g :: gs => g.first ++ Grammar.firstAlt gs

end

lemma Production.solid_body (p : Production) : p.body.solid = p.solid := by
  cases p <;> rfl

lemma Production.first_body (p : Production) : p.body.first = p.first := by
  cases p <;> rfl

/-- One of the tests of a grammar expression succeeds on a token. -/
def Grammar.Starts (g : Grammar) (t : Token) : Prop := ∃ a ∈ g.first, a.Matches t

lemma Grammar.solid_of_mem_alt {g : Grammar} {gs : List Grammar} (h : allSolid gs = true)
    (hg : g ∈ gs) : g.solid = true := by
  induction gs with
  | nil => cases hg
  | cons g' gs ih =>
      simp only [allSolid, Bool.and_eq_true] at h
      rcases List.mem_cons.mp hg with rfl | hg
      · exact h.1
      · exact ih h.2 hg

lemma Grammar.first_subset_alt {g : Grammar} {gs : List Grammar} (hg : g ∈ gs) :
    g.first ⊆ firstAlt gs := by
  induction gs with
  | nil => cases hg
  | cons g' gs ih =>
      rw [firstAlt]
      rcases List.mem_cons.mp hg with rfl | hg
      · exact List.subset_append_left _ _
      · exact List.subset_append_of_subset_right _ (ih hg)

/-- A solid expression derives at least one token. -/
lemma Grammar.Derives.leaves_ne_nil {g : Grammar} {ts : List Tree} (h : g.Derives ts)
    (hsolid : g.solid = true) : Tree.leavesAll ts ≠ [] := by
  induction h with
  | literal _ => simp
  | kind _ => simp
  | @rule p pos ts _ ih =>
      rw [Grammar.solid, ← Production.solid_body] at hsolid
      simpa using ih hsolid
  | seqNil => cases hsolid
  | seqCons _ _ ih _ =>
      rw [Grammar.solid, Grammar.headSolid] at hsolid
      simp [ih hsolid]
  | alt mem _ ih => exact ih (Grammar.solid_of_mem_alt hsolid mem)
  | absent => cases hsolid
  | present _ _ => cases hsolid
  | manyNil => cases hsolid
  | manyCons _ _ _ _ => cases hsolid

/-- The first token that a grammar expression derives passes one of its tests. -/
lemma Grammar.Derives.starts {g : Grammar} {ts : List Tree} (h : g.Derives ts) {t : Token}
    {more : List Token} (hleaves : Tree.leavesAll ts = t :: more) : g.Starts t := by
  induction h generalizing more with
  | @literal s u h =>
      obtain ⟨rfl, -⟩ : u = t ∧ _ := by simpa using hleaves
      exact ⟨.text s, by simp [Grammar.first], h⟩
  | @kind k u h =>
      obtain ⟨rfl, -⟩ : u = t ∧ _ := by simpa using hleaves
      exact ⟨.kind k, by simp [Grammar.first], h⟩
  | @rule p pos ts _ ih =>
      obtain ⟨a, ha, hmatch⟩ := ih (by simpa using hleaves)
      rw [Production.first_body] at ha
      exact ⟨a, ha, hmatch⟩
  | seqNil => simp at hleaves
  | @seqCons g gs ts us head _ ih ihtail =>
      rw [Grammar.Starts, Grammar.first, Grammar.firstSeq]
      cases hhead : Tree.leavesAll ts with
      | nil =>
          have hsolid : g.solid = false := by
            rw [← Bool.not_eq_true]
            exact fun hsolid => head.leaves_ne_nil hsolid hhead
          obtain ⟨a, ha, hmatch⟩ := ihtail (by simpa [hhead] using hleaves)
          exact ⟨a, by simpa [hsolid] using .inr ha, hmatch⟩
      | cons u more' =>
          obtain ⟨rfl, -⟩ : u = t ∧ _ := by simpa [hhead] using hleaves
          obtain ⟨a, ha, hmatch⟩ := ih hhead
          exact ⟨a, List.mem_append_left _ ha, hmatch⟩
  | alt mem _ ih =>
      obtain ⟨a, ha, hmatch⟩ := ih hleaves
      exact ⟨a, Grammar.first_subset_alt mem ha, hmatch⟩
  | absent => simp at hleaves
  | present _ ih => exact ih hleaves
  | manyNil => simp at hleaves
  | @manyCons g ts us _ _ ih ihtail =>
      cases hhead : Tree.leavesAll ts with
      | nil => exact ihtail (by simpa [hhead] using hleaves)
      | cons u more' =>
          obtain ⟨rfl, -⟩ : u = t ∧ _ := by simpa [hhead] using hleaves
          exact ih hhead

/-! ## Expressions that do not match

Solid expressions give up at the first token, and leave no diagnostic that would matter.
-/

/-- With a given amount of fuel, a solid expression does not match where no test succeeds, and
nothing is noted. -/
structure RecogniserRefuses (fuel : Nat) : Prop where
  one : ∀ {g c}, g.solid = true → ¬ g.Starts c.next → recognise fuel g c = (.noMatch, c)
  seq : ∀ {gs c}, Grammar.headSolid gs = true → ¬ (Grammar.seq gs).Starts c.next →
    recogniseSeq fuel true gs c = (.noMatch, c)
  alt : ∀ {gs c}, Grammar.allSolid gs = true → ¬ (Grammar.alt gs).Starts c.next →
    recogniseAlt fuel gs 0 none c = (.noMatch, c)

namespace RecogniserRefuses

variable {fuel : Nat} {c : Cursor}

lemma zero : RecogniserRefuses 0 where
  one _ _ := by rw [recognise]
  seq _ _ := by rw [recogniseSeq, if_pos rfl]
  alt _ _ := by rw [recogniseAlt]

lemma one_succ (ih : RecogniserRefuses fuel) {g : Grammar} (hsolid : g.solid = true)
    (h : ¬ g.Starts c.next) : recognise (fuel + 1) g c = (.noMatch, c) := by
  cases g with
  | literal s =>
      have hne : ¬ c.next.text = s := fun hs => h ⟨.text s, by simp [Grammar.first], hs⟩
      rw [recognise, if_neg hne]
  | kind k =>
      have hne : ¬ c.next.kind = k := fun hk => h ⟨.kind k, by simp [Grammar.first], hk⟩
      rw [recognise, if_neg hne]
  | rule p =>
      have hbody : recognise fuel p.body c = (.noMatch, c) := by
        refine ih.one (by rw [p.solid_body]; exact hsolid) ?_
        rintro ⟨a, ha, hmatch⟩
        rw [p.first_body] at ha
        exact h ⟨a, ha, hmatch⟩
      rw [recognise, hbody]
  | seq gs =>
      rw [recognise]
      exact ih.seq hsolid h
  | alt gs =>
      rw [recognise]
      exact ih.alt hsolid h
  | optional g => cases hsolid
  | many g => cases hsolid

lemma seq_succ (ih : RecogniserRefuses fuel) {gs : List Grammar}
    (hsolid : Grammar.headSolid gs = true) (h : ¬ (Grammar.seq gs).Starts c.next) :
    recogniseSeq (fuel + 1) true gs c = (.noMatch, c) := by
  cases gs with
  | nil => cases hsolid
  | cons g gs =>
      have hhead : recognise fuel g c = (.noMatch, c) := by
        refine ih.one hsolid ?_
        rintro ⟨a, ha, hmatch⟩
        refine h ⟨a, ?_, hmatch⟩
        rw [Grammar.first, Grammar.firstSeq]
        exact List.mem_append_left _ ha
      rw [recogniseSeq, hhead]
      rfl

lemma alt_succ (ih : RecogniserRefuses fuel) {gs : List Grammar}
    (hsolid : Grammar.allSolid gs = true) (h : ¬ (Grammar.alt gs).Starts c.next) :
    recogniseAlt (fuel + 1) gs 0 none c = (.noMatch, c) := by
  cases gs with
  | nil => rw [recogniseAlt]
  | cons g gs =>
      simp only [Grammar.allSolid, Bool.and_eq_true] at hsolid
      have hhead : recognise fuel g c = (.noMatch, c) := by
        refine ih.one hsolid.1 ?_
        rintro ⟨a, ha, hmatch⟩
        exact h ⟨a, Grammar.first_subset_alt List.mem_cons_self ha, hmatch⟩
      have hmore : recogniseAlt fuel gs 0 none c = (.noMatch, c) := by
        refine ih.alt hsolid.2 ?_
        rintro ⟨a, ha, hmatch⟩
        refine h ⟨a, ?_, hmatch⟩
        rw [Grammar.first, Grammar.firstAlt]
        exact List.mem_append_right _ ha
      rw [recogniseAlt, hhead]
      exact hmore

end RecogniserRefuses

/-- **A token that passes no test is refused at once**, with any amount of fuel. -/
lemma recogniserRefuses (fuel : Nat) : RecogniserRefuses fuel := by
  induction fuel with
  | zero => exact .zero
  | succ fuel ih => exact ⟨ih.one_succ, ih.seq_succ, ih.alt_succ⟩

/-! ## Parsing by the next token

Each constructor is a step of the recogniser together with the test that makes it take this step.
-/

/-- The grammar expression takes the first of some tokens, as the trees `ts`, and leaves the others.
Alternatives are skipped, options left out and repetitions ended only where the next token passes no
test. -/
inductive Grammar.Parses : Grammar → List Token → List Tree → List Token → Prop where
  | literal {s : String} {t : Token} {rest : List Token} (h : t.text = s) :
      Parses (.literal s) (t :: rest) [.leaf t] rest
  | kind {k : TokenKind} {t : Token} {rest : List Token} (h : t.kind = k) :
      Parses (.kind k) (t :: rest) [.leaf t] rest
  | rule {p : Production} {tokens rest : List Token} {ts : List Tree}
      (h : Parses p.body tokens ts rest) :
      Parses (.rule p) tokens [.node p (tokens.headD {}).pos ts] rest
  | seqNil {tokens : List Token} : Parses (.seq []) tokens [] tokens
  | seqCons {g : Grammar} {gs : List Grammar} {tokens mid rest : List Token} {ts us : List Tree}
      (head : Parses g tokens ts mid) (tail : Parses (.seq gs) mid us rest) :
      Parses (.seq (g :: gs)) tokens (ts ++ us) rest
  | altTake {g : Grammar} {gs : List Grammar} {tokens rest : List Token} {ts : List Tree}
      (h : Parses g tokens ts rest) : Parses (.alt (g :: gs)) tokens ts rest
  | altSkip {g : Grammar} {gs : List Grammar} {tokens rest : List Token} {ts : List Tree}
      (hsolid : g.solid = true) (hnot : ¬ g.Starts (tokens.headD {}))
      (h : Parses (.alt gs) tokens ts rest) : Parses (.alt (g :: gs)) tokens ts rest
  | absent {g : Grammar} {tokens : List Token} (hsolid : g.solid = true)
      (hnot : ¬ g.Starts (tokens.headD {})) : Parses (.optional g) tokens [] tokens
  | present {g : Grammar} {tokens rest : List Token} {ts : List Tree}
      (h : Parses g tokens ts rest) : Parses (.optional g) tokens ts rest
  | manyNil {g : Grammar} {tokens : List Token} (hsolid : g.solid = true)
      (hnot : ¬ g.Starts (tokens.headD {})) : Parses (.many g) tokens [] tokens
  | manyCons {g : Grammar} {tokens mid rest : List Token} {ts us : List Tree}
      (hsolid : g.solid = true) (head : Parses g tokens ts mid)
      (tail : Parses (.many g) mid us rest) : Parses (.many g) tokens (ts ++ us) rest

namespace Grammar.Parses

variable {g : Grammar} {tokens rest : List Token} {ts : List Tree}

/-- What parses is derived. -/
lemma derives (h : g.Parses tokens ts rest) : g.Derives ts := by
  induction h with
  | literal h => exact .literal h
  | kind h => exact .kind h
  | rule _ ih => exact .rule ih
  | seqNil => exact .seqNil
  | seqCons _ _ ih₁ ih₂ => exact .seqCons ih₁ ih₂
  | altTake _ ih => exact .alt List.mem_cons_self ih
  | altSkip _ _ _ ih => exact ih.alt_cons
  | absent _ _ => exact .absent
  | present _ ih => exact .present ih
  | manyNil _ _ => exact .manyNil
  | manyCons _ _ _ ih₁ ih₂ => exact .manyCons ih₁ ih₂

/-- What parses takes its own tokens. -/
lemma leaves (h : g.Parses tokens ts rest) : tokens = Tree.leavesAll ts ++ rest := by
  induction h with
  | literal _ => simp
  | kind _ => simp
  | rule _ ih => simpa using ih
  | seqNil => simp
  | seqCons _ _ ih₁ ih₂ => rw [ih₁, ih₂, Tree.leavesAll_append, List.append_assoc]
  | altTake _ ih => exact ih
  | altSkip _ _ _ ih => exact ih
  | absent _ _ => simp
  | present _ ih => exact ih
  | manyNil _ _ => simp
  | manyCons _ _ _ ih₁ ih₂ => rw [ih₁, ih₂, Tree.leavesAll_append, List.append_assoc]

/-- A solid expression moves on. -/
lemma length_lt (h : g.Parses tokens ts rest) (hsolid : g.solid = true) :
    rest.length < tokens.length := by
  have hpos := List.length_pos_iff.mpr (h.derives.leaves_ne_nil hsolid)
  rw [h.leaves, List.length_append]
  omega

end Grammar.Parses

/-! ## Fuel

A walk pays for its depth with the tokens that it takes.  Rules that derive each other without a
token in between are the only ones that go deeper for nothing; the grammar has no loop of them, so a
constant is enough.
-/

/-- How deep the walk may go inside a rule beyond what its tokens pay for. -/
def Production.reserve : Production → Nat
  | .access => 6
  | .cast => 10
  | .primary => 20
  | .unary => 25
  | .link => 28
  | .chain => 30
  | .expr => 34
  | .assign => 10
  | .decl => 10
  | .block => 8
  | .cond => 8
  | .stmt => 18
  | .program => 24

mutual

/-- How deep the walk may go beyond 64 levels for each token.  An item of a sequence behind a solid
one has a token more to pay from. -/
def Grammar.reserve : Grammar → Nat
  | .literal _ | .kind _ => 1
  | .rule p => p.reserve
  | .seq gs => Grammar.reserveSeq gs
  | .alt gs => Grammar.reserveAlt gs
  | .optional g | .many g => g.reserve + 2

/-- The depth of a sequence. -/
def Grammar.reserveSeq : List Grammar → Nat
  | [] => 1
  | g :: gs => 1 + max (g.reserve + 1) (Grammar.reserveSeq gs - if g.solid then 64 else 0)

/-- The depth of a choice. -/
def Grammar.reserveAlt : List Grammar → Nat
  | [] => 1
  | g :: gs => 1 + max (g.reserve + 1) (Grammar.reserveAlt gs)

end

lemma Production.reserve_body (p : Production) : p.body.reserve + 2 ≤ p.reserve := by
  cases p <;> decide

lemma Production.reserve_le (p : Production) : p.reserve ≤ 64 := by
  cases p <;> decide

/-- The function of the recogniser that walks a grammar expression.  For tokens and rules this is
`recognise` itself, which hands the others over. -/
def Grammar.walk (fuel : Nat) (first : Bool) (g : Grammar) (c : Cursor) : Outcome × Cursor :=
  match g with
  | .literal s => recognise fuel (.literal s) c
  | .kind k => recognise fuel (.kind k) c
  | .rule p => recognise fuel (.rule p) c
  | .seq gs => recogniseSeq fuel first gs c
  | .alt gs => recogniseAlt fuel gs 0 none c
  | .optional g => recogniseMany fuel false g c
  | .many g => recogniseMany fuel true g c

/-- The result of a walk is a match that leaves `rest`. -/
def Matched (ts : List Tree) (rest : List Token) (r : Outcome × Cursor) : Prop :=
  ∃ d : Cursor, r = (.matched ts, d) ∧ d.rest = rest

/-- With `n` units of fuel or more, the walk from any place before `tokens` is such a match. -/
def Grammar.Walks (n : Nat) (g : Grammar) (tokens : List Token) (ts : List Tree)
    (rest : List Token) : Prop :=
  ∀ fuel first c, n ≤ fuel → c.rest = tokens → Matched ts rest (g.walk fuel first c)

namespace Grammar.Walks

variable {n m : Nat} {g : Grammar} {gs : List Grammar} {tokens mid rest : List Token}
  {ts us : List Tree}

lemma mono (h : n ≤ m) (hg : g.Walks n tokens ts rest) : g.Walks m tokens ts rest :=
  fun fuel first c hfuel hc => hg fuel first c (Nat.le_trans h hfuel) hc

/-- `recognise` needs one unit more to hand a grammar expression over. -/
lemma recognise (h : g.Walks n tokens ts rest) (fuel : Nat) (hfuel : n + 1 ≤ fuel) (c : Cursor)
    (hc : c.rest = tokens) : Matched ts rest (recognise fuel g c) := by
  obtain ⟨fuel, rfl⟩ := Nat.exists_eq_add_of_le' (Nat.le_trans (Nat.le_add_left 1 n) hfuel)
  cases g with
  | literal s => exact h (fuel + 1) true c (by omega) hc
  | kind k => exact h (fuel + 1) true c (by omega) hc
  | rule p => exact h (fuel + 1) true c (by omega) hc
  | seq gs =>
      rw [Cellular.recognise]
      exact h fuel true c (by omega) hc
  | alt gs =>
      rw [Cellular.recognise]
      exact h fuel true c (by omega) hc
  | optional g =>
      rw [Cellular.recognise]
      exact h fuel true c (by omega) hc
  | many g =>
      rw [Cellular.recognise]
      exact h fuel true c (by omega) hc

lemma literal {s : String} {t : Token} (h : t.text = s) :
    Grammar.Walks 1 (.literal s) (t :: rest) [.leaf t] rest := by
  rintro (_ | fuel) first ⟨tokens, index, deepest, depth⟩ hfuel hc
  · cases hfuel
  · obtain rfl : tokens = t :: rest := hc
    exact ⟨_, if_pos h, rfl⟩

lemma kind {k : TokenKind} {t : Token} (h : t.kind = k) :
    Grammar.Walks 1 (.kind k) (t :: rest) [.leaf t] rest := by
  rintro (_ | fuel) first ⟨tokens, index, deepest, depth⟩ hfuel hc
  · cases hfuel
  · obtain rfl : tokens = t :: rest := hc
    exact ⟨_, if_pos h, rfl⟩

lemma rule {p : Production} (h : p.body.Walks n tokens ts rest) :
    Grammar.Walks (n + 2) (.rule p) tokens [.node p (tokens.headD {}).pos ts] rest := by
  rintro (_ | fuel) first c hfuel rfl
  · cases hfuel
  · obtain ⟨d, hd, hrest⟩ := h.recognise fuel (by omega) c rfl
    refine ⟨d, ?_, hrest⟩
    rw [Grammar.walk, Cellular.recognise, hd]
    rfl

lemma seqNil : Grammar.Walks 1 (.seq []) tokens [] tokens := by
  rintro (_ | fuel) first c hfuel rfl
  · cases hfuel
  · exact ⟨c, by rw [Grammar.walk, recogniseSeq], rfl⟩

lemma seqCons (head : g.Walks n tokens ts mid) (tail : Grammar.Walks m (.seq gs) mid us rest) :
    Grammar.Walks (1 + max (n + 1) m) (.seq (g :: gs)) tokens (ts ++ us) rest := by
  rintro (_ | fuel) first c hfuel hc
  · omega
  · obtain ⟨b, hb, hmid⟩ := head.recognise fuel (by omega) c hc
    obtain ⟨d, hd, hrest⟩ := tail fuel false b (by omega) hmid
    rw [Grammar.walk] at hd
    refine ⟨d, ?_, hrest⟩
    rw [Grammar.walk, recogniseSeq, hb]
    simp only [hd]

lemma altTake (h : g.Walks n tokens ts rest) (gs : List Grammar) :
    Grammar.Walks (n + 2) (.alt (g :: gs)) tokens ts rest := by
  rintro (_ | fuel) first c hfuel hc
  · cases hfuel
  · obtain ⟨b, hb, hrest⟩ := h.recognise fuel (by omega) c hc
    refine ⟨c.accept b, ?_, (c.accept_rest b).trans hrest⟩
    rw [Grammar.walk, recogniseAlt, hb]

lemma altSkip (hsolid : g.solid = true) (hnot : ¬ g.Starts (tokens.headD {}))
    (h : Grammar.Walks n (.alt gs) tokens ts rest) :
    Grammar.Walks (n + 1) (.alt (g :: gs)) tokens ts rest := by
  rintro (_ | fuel) first c hfuel rfl
  · cases hfuel
  · obtain ⟨d, hd, hrest⟩ := h fuel first c (by omega) rfl
    rw [Grammar.walk] at hd
    refine ⟨d, ?_, hrest⟩
    rw [Grammar.walk, recogniseAlt, (recogniserRefuses fuel).one hsolid hnot]
    exact hd

lemma absent (hsolid : g.solid = true) (hnot : ¬ g.Starts (tokens.headD {})) :
    Grammar.Walks 1 (.optional g) tokens [] tokens := by
  rintro (_ | fuel) first c hfuel rfl
  · cases hfuel
  · refine ⟨c.accept c, ?_, c.accept_rest c⟩
    rw [Grammar.walk, recogniseMany, (recogniserRefuses fuel).one hsolid hnot]

lemma present (h : g.Walks n tokens ts rest) :
    Grammar.Walks (n + 2) (.optional g) tokens ts rest := by
  rintro (_ | fuel) first c hfuel hc
  · cases hfuel
  · obtain ⟨b, hb, hrest⟩ := h.recognise fuel (by omega) c hc
    refine ⟨c.accept b, ?_, (c.accept_rest b).trans hrest⟩
    rw [Grammar.walk, recogniseMany, hb]
    rfl

lemma manyNil (hsolid : g.solid = true) (hnot : ¬ g.Starts (tokens.headD {})) :
    Grammar.Walks 1 (.many g) tokens [] tokens := by
  rintro (_ | fuel) first c hfuel rfl
  · cases hfuel
  · refine ⟨c.accept c, ?_, c.accept_rest c⟩
    rw [Grammar.walk, recogniseMany, (recogniserRefuses fuel).one hsolid hnot]

lemma manyCons (head : g.Walks n tokens ts mid) (tail : Grammar.Walks m (.many g) mid us rest) :
    Grammar.Walks (1 + max (n + 1) m) (.many g) tokens (ts ++ us) rest := by
  rintro (_ | fuel) first c hfuel hc
  · omega
  · obtain ⟨b, hb, hmid⟩ := head.recognise fuel (by omega) c hc
    obtain ⟨d, hd, hrest⟩ := tail fuel first (c.accept b) (by omega) ((c.accept_rest b).trans hmid)
    rw [Grammar.walk] at hd
    refine ⟨d, ?_, hrest⟩
    rw [Grammar.walk, recogniseMany, hb]
    simp only [hd, if_true]

end Grammar.Walks

/-- The fuel that a walk needs: 64 units for each token and the reserve. -/
def Grammar.fuel (g : Grammar) (tokens : List Token) : Nat := 64 * tokens.length + g.reserve

/-- **What parses is walked through** with fuel for its tokens. -/
lemma Grammar.Parses.walks {g : Grammar} {tokens rest : List Token} {ts : List Tree}
    (h : g.Parses tokens ts rest) : g.Walks (g.fuel tokens) tokens ts rest := by
  induction h with
  | literal h => exact (Grammar.Walks.literal h).mono (Nat.le_add_left 1 _)
  | kind h => exact (Grammar.Walks.kind h).mono (Nat.le_add_left 1 _)
  | @rule p tokens rest ts _ ih =>
      refine ih.rule.mono ?_
      have hbody := p.reserve_body
      simp only [Grammar.fuel, Grammar.reserve]
      omega
  | seqNil => exact Grammar.Walks.seqNil.mono (Nat.le_add_left 1 _)
  | @seqCons g gs tokens mid rest ts us head tail ihhead ihtail =>
      refine (ihhead.seqCons ihtail).mono ?_
      have hlen := congrArg List.length head.leaves
      rw [List.length_append] at hlen
      simp only [Grammar.fuel, Grammar.reserve, Grammar.reserveSeq]
      split_ifs with hsolid
      · -- the token that the first item takes pays for the others
        have hlt := head.length_lt hsolid
        omega
      · omega
  | @altTake g gs tokens rest ts _ ih =>
      refine (ih.altTake gs).mono ?_
      simp only [Grammar.fuel, Grammar.reserve, Grammar.reserveAlt]
      omega
  | @altSkip g gs tokens rest ts hsolid hnot _ ih =>
      refine (ih.altSkip hsolid hnot).mono ?_
      simp only [Grammar.fuel, Grammar.reserve, Grammar.reserveAlt]
      omega
  | absent hsolid hnot =>
      refine (Grammar.Walks.absent hsolid hnot).mono ?_
      simp only [Grammar.fuel, Grammar.reserve]
      omega
  | present _ ih =>
      refine ih.present.mono ?_
      simp only [Grammar.fuel, Grammar.reserve]
      omega
  | manyNil hsolid hnot =>
      refine (Grammar.Walks.manyNil hsolid hnot).mono ?_
      simp only [Grammar.fuel, Grammar.reserve]
      omega
  | manyCons hsolid head _ ihhead ihtail =>
      refine (ihhead.manyCons ihtail).mono ?_
      have hlt := head.length_lt hsolid
      simp only [Grammar.fuel, Grammar.reserve]
      omega

/-- **What parses up to the end is the tree of the text.** -/
lemma Grammar.Parses.parseTree {p : Production} {tokens rest : List Token} {t : Tree}
    (h : (Grammar.rule p).Parses tokens [t] rest) (hend : (rest.headD {}).kind = .eof) :
    parseTree p tokens = .ok t := by
  have hfuel : (Grammar.rule p).fuel tokens ≤ recogniserFuel tokens.length := by
    have hreserve := p.reserve_le
    simp only [Grammar.fuel, Grammar.reserve, recogniserFuel]
    omega
  obtain ⟨d, hd, hrest⟩ := h.walks _ true { rest := tokens } hfuel rfl
  rw [Grammar.walk] at hd
  have hnext : d.next.kind = .eof := by rwa [Cursor.next, hrest]
  rw [Cellular.parseTree, hd]
  exact if_pos hnext

end Cellular
