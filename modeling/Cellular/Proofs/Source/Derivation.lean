import Cellular.Source.Recogniser
import Mathlib.Tactic.Common

/-!
# Recognised trees are derivations

The recogniser walks the grammar by its own rules of lookahead.  Whatever these make it try, what it
accepts is a derivation of the tokens that it has passed.

* `Grammar.Derives` relates a grammar expression to the trees that it derives; `Tree.leaves` are the
  tokens that a tree derives.
* `recognisesDerivations` says that the recogniser finds only such trees and leaves the tokens
  behind them.
* `Tree.Derived` is the same fact seen from a tree; it passes on to the trees below
  (`Tree.Derived.children`).

The recogniser is four functions that call each other, with fuel for the depth of the calls, a
cursor that moves, and the deepest diagnostic so far.  All theorems about it are of one form: a
structure with one field for each of the four functions, proved by induction on the fuel, where the
step of each function uses the fields of the others.  The two structures of this module are about
results: what does not match leaves the tokens as they are, and what matches is a derivation of the
tokens that are gone. Neither mentions lookahead, so both would survive another strategy.
-/

namespace Cellular

/-- The lists of trees that a grammar expression derives. -/
inductive Grammar.Derives : Grammar → List Tree → Prop where
  | literal {text : String} {t : Token} (h : t.text = text) : Derives (.literal text) [.leaf t]
  | kind {k : TokenKind} {t : Token} (h : t.kind = k) : Derives (.kind k) [.leaf t]
  | rule {p : Production} {pos : Position} {ts : List Tree} (h : Derives p.body ts) :
      Derives (.rule p) [.node p pos ts]
  | seqNil : Derives (.seq []) []
  | seqCons {g : Grammar} {gs : List Grammar} {ts us : List Tree} (head : Derives g ts)
      (tail : Derives (.seq gs) us) : Derives (.seq (g :: gs)) (ts ++ us)
  | alt {g : Grammar} {gs : List Grammar} {ts : List Tree} (mem : g ∈ gs) (h : Derives g ts) :
      Derives (.alt gs) ts
  | absent {g : Grammar} : Derives (.optional g) []
  | present {g : Grammar} {ts : List Tree} (h : Derives g ts) : Derives (.optional g) ts
  | manyNil {g : Grammar} : Derives (.many g) []
  | manyCons {g : Grammar} {ts us : List Tree} (head : Derives g ts) (tail : Derives (.many g) us) :
      Derives (.many g) (ts ++ us)

mutual

/-- The tokens that a tree derives, from left to right. -/
def Tree.leaves : Tree → List Token
  | .leaf t => [t]
  | .node _ _ ts => Tree.leavesAll ts

/-- The tokens that several trees derive. -/
def Tree.leavesAll : List Tree → List Token
  | [] => []
  | t :: ts => t.leaves ++ Tree.leavesAll ts

end

@[simp] lemma Tree.leaves_leaf (t : Token) : (Tree.leaf t).leaves = [t] := by rw [Tree.leaves]

@[simp] lemma Tree.leaves_node (p : Production) (pos : Position) (ts : List Tree) :
    (Tree.node p pos ts).leaves = Tree.leavesAll ts := by rw [Tree.leaves]

@[simp] lemma Tree.leavesAll_nil : Tree.leavesAll [] = [] := by rw [Tree.leavesAll]

@[simp] lemma Tree.leavesAll_cons (t : Tree) (ts : List Tree) :
    Tree.leavesAll (t :: ts) = t.leaves ++ Tree.leavesAll ts := by rw [Tree.leavesAll]

@[simp] lemma Tree.leavesAll_append (ts us : List Tree) :
    Tree.leavesAll (ts ++ us) = Tree.leavesAll ts ++ Tree.leavesAll us := by
  induction ts with
  | nil => simp
  | cons t ts ih => simp [ih]

namespace Grammar.Derives

/-! ## Inversion

A derivation of a known form has children of a known form.
-/

lemma of_seq_cons {g : Grammar} {gs : List Grammar} {vs : List Tree}
    (h : Derives (.seq (g :: gs)) vs) :
    ∃ ts us, vs = ts ++ us ∧ g.Derives ts ∧ Derives (.seq gs) us := by
  cases h with
  | seqCons head tail => exact ⟨_, _, rfl, head, tail⟩

lemma of_rule {p : Production} {ts : List Tree} (h : Derives (.rule p) ts) :
    ∃ pos us, ts = [.node p pos us] ∧ p.body.Derives us := by
  cases h with
  | rule h => exact ⟨_, _, rfl, h⟩

/-- A choice of literals is a single token with one of these texts. -/
lemma of_oneOf {texts : List String} {ts : List Tree} (h : Derives (.oneOf texts) ts) :
    ∃ t : Token, ts = [.leaf t] ∧ t.text ∈ texts := by
  rw [Grammar.oneOf] at h
  cases h with
  | alt mem h =>
      obtain ⟨text, htext, rfl⟩ := List.mem_map.mp mem
      cases h with
      | literal h => exact ⟨_, rfl, h ▸ htext⟩

/-- One more alternative derives no less. -/
lemma alt_cons {g : Grammar} {gs : List Grammar} {ts : List Tree} (h : Derives (.alt gs) ts) :
    Derives (.alt (g :: gs)) ts := by
  cases h with
  | alt mem h => exact .alt (List.mem_cons_of_mem _ mem) h

end Grammar.Derives

/-! ## The recogniser

An expression is proper if no part of it accepts the mark of the end by its empty text.  All rules
of the grammar are.  Without this the recogniser could pass the mark, behind which there is nothing.
-/

/-- What a repetition derives, as often as it matches or at most once. -/
def Grammar.repeated (again : Bool) (g : Grammar) : Grammar :=
  if again then .many g else .optional g

lemma Grammar.repeated_nil (again : Bool) (g : Grammar) : (g.repeated again).Derives [] := by
  cases again
  · exact .absent
  · exact .manyNil

mutual

/-- No token at the end of a text is taken for one of the grammar expression. -/
def Grammar.proper : Grammar → Bool
  | .literal text => text ≠ ""
  | .kind k => k ≠ .eof
  | .rule _ => true
  | .seq gs => Grammar.allProper gs
  | .alt gs => Grammar.allProper gs
  | .optional g => g.proper
  | .many g => g.proper

/-- All of several grammar expressions are proper. -/
def Grammar.allProper : List Grammar → Bool
  | [] => true
  | g :: gs => g.proper && Grammar.allProper gs

end

lemma Production.body_proper (p : Production) : p.body.proper = true := by
  cases p <;> decide

lemma Cursor.note_rest (c : Cursor) (u : Unexpected) : (c.note u).rest = c.rest := by
  rw [Cursor.note]
  split_ifs <;> rfl

lemma Cursor.accept_rest (c b : Cursor) : (c.accept b).rest = b.rest := by
  simp only [Cursor.accept]
  split_ifs <;> rfl

lemma Cursor.learn_rest (c b : Cursor) (u : Unexpected) : (c.learn b u).rest = c.rest := by
  rw [Cursor.learn]
  split_ifs <;> rfl

/-- A token that is not the end is the first of those to come. -/
lemma Cursor.rest_eq_of_next {c : Cursor} (h : c.next ≠ {}) :
    c.rest = c.next :: c.advance.rest := by
  obtain ⟨rest, index, deepest, depth⟩ := c
  cases rest with
  | nil => exact absurd rfl h
  | cons t rest => rfl

/-- With a given amount of fuel, what does not match takes no token; a sequence that has begun and a
repetition always have an answer. -/
structure RecogniserStays (fuel : Nat) : Prop where
  one : ∀ {g c d}, recognise fuel g c = (.noMatch, d) → d.rest = c.rest
  seq : ∀ {gs c d}, recogniseSeq fuel true gs c = (.noMatch, d) → d.rest = c.rest
  begun : ∀ {gs c d}, recogniseSeq fuel false gs c ≠ (.noMatch, d)
  alt : ∀ {gs reach best c d}, recogniseAlt fuel gs reach best c = (.noMatch, d) → d.rest = c.rest
  many : ∀ {again g c d}, recogniseMany fuel again g c ≠ (.noMatch, d)

namespace RecogniserStays

variable {fuel : Nat}

lemma zero : RecogniserStays 0 where
  one h := by
    simp only [recognise, Prod.mk.injEq, true_and] at h
    rw [h]
  seq h := by
    simp only [recogniseSeq, if_true, Prod.mk.injEq, true_and] at h
    rw [h]
  begun h := by simp [recogniseSeq] at h
  alt h := by
    simp only [recogniseAlt, Prod.mk.injEq, true_and] at h
    rw [h]
  many h := by simp [recogniseMany] at h

lemma one_succ (ih : RecogniserStays fuel) {g : Grammar} {c d : Cursor}
    (h : recognise (fuel + 1) g c = (.noMatch, d)) : d.rest = c.rest := by
  cases g with
  | literal text =>
      simp only [recognise] at h
      split_ifs at h
      · simp at h
      · cases h
        rfl
  | kind k =>
      simp only [recognise] at h
      split_ifs at h
      · simp at h
      · cases h
        rfl
  | rule p =>
      simp only [recognise] at h
      split at h
      · simp at h
      · simp at h
      · rename_i b hbody
        cases h
        exact ih.one hbody
  | seq items =>
      simp only [recognise] at h
      exact ih.seq h
  | alt items =>
      simp only [recognise] at h
      exact ih.alt h
  | optional item =>
      simp only [recognise] at h
      exact absurd h ih.many
  | many item =>
      simp only [recognise] at h
      exact absurd h ih.many

lemma seq_succ (ih : RecogniserStays fuel) {gs : List Grammar} {c d : Cursor}
    (h : recogniseSeq (fuel + 1) true gs c = (.noMatch, d)) : d.rest = c.rest := by
  cases gs with
  | nil => simp [recogniseSeq] at h
  | cons g gs =>
      simp only [recogniseSeq] at h
      split at h
      · simp at h
      · rename_i b hhead
        simp only [if_true, Prod.mk.injEq, true_and] at h
        rw [← h]
        exact ih.one hhead
      · split at h
        · simp at h
        · exact absurd h ih.begun

lemma begun_succ (ih : RecogniserStays fuel) {gs : List Grammar} {c d : Cursor} :
    recogniseSeq (fuel + 1) false gs c ≠ (.noMatch, d) := by
  intro h
  cases gs with
  | nil => simp [recogniseSeq] at h
  | cons g gs =>
      simp only [recogniseSeq] at h
      split at h
      · simp at h
      · simp at h
      · split at h
        · simp at h
        · exact ih.begun h

lemma alt_succ (ih : RecogniserStays fuel) {gs : List Grammar} {reach : Nat}
    {best : Option Unexpected} {c d : Cursor}
    (h : recogniseAlt (fuel + 1) gs reach best c = (.noMatch, d)) : d.rest = c.rest := by
  cases gs with
  | nil =>
      simp only [recogniseAlt] at h
      split at h
      · simp at h
      · cases h
        rfl
  | cons g gs =>
      simp only [recogniseAlt] at h
      split at h
      · simp at h
      · exact ih.alt h
      · split_ifs at h
        · simp at h
        · exact (ih.alt h).trans (Cursor.learn_rest _ _ _)
        · exact (ih.alt h).trans (Cursor.learn_rest _ _ _)

lemma many_succ (ih : RecogniserStays fuel) {again : Bool} {g : Grammar} {c d : Cursor} :
    recogniseMany (fuel + 1) again g c ≠ (.noMatch, d) := by
  intro h
  simp only [recogniseMany] at h
  split at h
  · simp at h
  · split_ifs at h
    · split at h
      · simp at h
      · exact ih.many h
    · simp at h
  · split_ifs at h <;> simp at h

end RecogniserStays

lemma recogniserStays (fuel : Nat) : RecogniserStays fuel := by
  induction fuel with
  | zero => exact .zero
  | succ fuel ih => exact ⟨ih.one_succ, ih.seq_succ, ih.begun_succ, ih.alt_succ, ih.many_succ⟩

/-- The grammar expression `g` derives the trees `ts`, and these take the tokens between `c` and
`d`. -/
structure Grammar.Finds (g : Grammar) (c : Cursor) (ts : List Tree) (d : Cursor) : Prop where
  derives : g.Derives ts
  leaves : g.proper = true → c.rest = Tree.leavesAll ts ++ d.rest

/-- What the four functions of the recogniser find with a given amount of fuel. -/
structure RecognisesDerivations (fuel : Nat) : Prop where
  one : ∀ {g c ts d}, recognise fuel g c = (.matched ts, d) → g.Finds c ts d
  seq : ∀ {first gs c ts d}, recogniseSeq fuel first gs c = (.matched ts, d) →
    (Grammar.seq gs).Finds c ts d
  alt : ∀ {gs reach best c ts d}, recogniseAlt fuel gs reach best c = (.matched ts, d) →
    (Grammar.alt gs).Finds c ts d
  many : ∀ {again g c ts d}, recogniseMany fuel again g c = (.matched ts, d) →
    (g.repeated again).Finds c ts d

namespace Grammar.Finds

variable {g : Grammar} {gs : List Grammar} {b c d : Cursor} {ts us : List Tree}

/-- A repetition may end before anything was found. -/
lemma nothing (again : Bool) (g : Grammar) (h : d.rest = c.rest) :
    (g.repeated again).Finds c [] d :=
  ⟨Grammar.repeated_nil again g, fun _ => by simp [h]⟩

lemma rule {p : Production} (h : p.body.Finds c ts d) :
    Grammar.Finds (.rule p) c [.node p c.next.pos ts] d :=
  ⟨.rule h.derives, fun _ => by simpa using h.leaves p.body_proper⟩

lemma seqCons (head : g.Finds c ts b) (tail : Grammar.Finds (.seq gs) b us d) :
    Grammar.Finds (.seq (g :: gs)) c (ts ++ us) d where
  derives := .seqCons head.derives tail.derives
  leaves hproper := by
    simp only [Grammar.proper, Grammar.allProper, Bool.and_eq_true] at hproper
    rw [head.leaves hproper.1, tail.leaves hproper.2, Tree.leavesAll_append, List.append_assoc]

lemma alt_head (h : g.Finds c ts b) : Grammar.Finds (.alt (g :: gs)) c ts (c.accept b) where
  derives := .alt List.mem_cons_self h.derives
  leaves hproper := by
    simp only [Grammar.proper, Grammar.allProper, Bool.and_eq_true] at hproper
    rw [h.leaves hproper.1, Cursor.accept_rest]

lemma alt_tail (h : Grammar.Finds (.alt gs) b ts d) (hb : b.rest = c.rest) :
    Grammar.Finds (.alt (g :: gs)) c ts d where
  derives := h.derives.alt_cons
  leaves hproper := by
    simp only [Grammar.proper, Grammar.allProper, Bool.and_eq_true] at hproper
    rw [← hb]
    exact h.leaves hproper.2

lemma present (h : g.Finds c ts b) : (g.repeated false).Finds c ts (c.accept b) where
  derives := .present h.derives
  leaves hproper := by rw [h.leaves hproper, Cursor.accept_rest]

lemma manyCons (head : g.Finds c ts b) (tail : (g.repeated true).Finds (c.accept b) us d) :
    (g.repeated true).Finds c (ts ++ us) d where
  derives := .manyCons head.derives tail.derives
  leaves hproper := by
    rw [head.leaves hproper, ← Cursor.accept_rest c b, tail.leaves hproper, Tree.leavesAll_append,
      List.append_assoc]

end Grammar.Finds

namespace RecognisesDerivations

variable {fuel : Nat}

lemma zero : RecognisesDerivations 0 where
  one h := by simp [recognise] at h
  seq {first gs c ts d} h := by cases first <;> simp [recogniseSeq] at h
  alt h := by simp [recogniseAlt] at h
  many := by
    intro again g c ts d h
    simp only [recogniseMany, Prod.mk.injEq, Outcome.matched.injEq] at h
    obtain ⟨rfl, rfl⟩ := h
    exact .nothing again g rfl

lemma one_succ (ih : RecognisesDerivations fuel) {g : Grammar} {c d : Cursor} {ts : List Tree}
    (h : recognise (fuel + 1) g c = (.matched ts, d)) : g.Finds c ts d := by
  cases g with
  | literal text =>
      simp only [recognise] at h
      split_ifs at h with htext
      · simp only [Prod.mk.injEq, Outcome.matched.injEq] at h
        obtain ⟨rfl, rfl⟩ := h
        refine ⟨.literal htext, fun hproper => ?_⟩
        refine c.rest_eq_of_next fun hend => ?_
        rw [← htext, hend] at hproper
        exact absurd hproper (by decide)
      · simp at h
  | kind k =>
      simp only [recognise] at h
      split_ifs at h with hkind
      · simp only [Prod.mk.injEq, Outcome.matched.injEq] at h
        obtain ⟨rfl, rfl⟩ := h
        refine ⟨.kind hkind, fun hproper => ?_⟩
        refine c.rest_eq_of_next fun hend => ?_
        rw [← hkind, hend] at hproper
        exact absurd hproper (by decide)
      · simp at h
  | rule p =>
      simp only [recognise] at h
      split at h
      · rename_i trees b hbody
        simp only [Prod.mk.injEq, Outcome.matched.injEq] at h
        obtain ⟨rfl, rfl⟩ := h
        exact (ih.one hbody).rule
      · simp at h
      · simp at h
  | seq items =>
      simp only [recognise] at h
      exact ih.seq h
  | alt items =>
      simp only [recognise] at h
      exact ih.alt h
  | optional item =>
      simp only [recognise] at h
      exact ih.many h
  | many item =>
      simp only [recognise] at h
      exact ih.many h

lemma seq_succ (ih : RecognisesDerivations fuel) {first : Bool} {gs : List Grammar} {c d : Cursor}
    {ts : List Tree} (h : recogniseSeq (fuel + 1) first gs c = (.matched ts, d)) :
    (Grammar.seq gs).Finds c ts d := by
  cases gs with
  | nil =>
      simp only [recogniseSeq, Prod.mk.injEq, Outcome.matched.injEq] at h
      obtain ⟨rfl, rfl⟩ := h
      exact ⟨.seqNil, fun _ => rfl⟩
  | cons g gs =>
      simp only [recogniseSeq] at h
      split at h
      · simp at h
      · split_ifs at h
        · simp at h
        · simp at h
      · rename_i trees b hhead
        split at h
        · rename_i others e htail
          simp only [Prod.mk.injEq, Outcome.matched.injEq] at h
          obtain ⟨rfl, rfl⟩ := h
          exact (ih.one hhead).seqCons (ih.seq htail)
        · rename_i hother
          exact absurd h (hother _ _)

lemma alt_succ (ih : RecognisesDerivations fuel) {gs : List Grammar} {reach : Nat}
    {best : Option Unexpected} {c d : Cursor} {ts : List Tree}
    (h : recogniseAlt (fuel + 1) gs reach best c = (.matched ts, d)) :
    (Grammar.alt gs).Finds c ts d := by
  cases gs with
  | nil =>
      simp only [recogniseAlt] at h
      split at h <;> simp at h
  | cons g gs =>
      simp only [recogniseAlt] at h
      split at h
      · rename_i trees b hfirst
        simp only [Prod.mk.injEq, Outcome.matched.injEq] at h
        obtain ⟨rfl, rfl⟩ := h
        exact (ih.one hfirst).alt_head
      · exact (ih.alt h).alt_tail rfl
      · split_ifs at h
        · simp at h
        · exact (ih.alt h).alt_tail (Cursor.learn_rest _ _ _)
        · exact (ih.alt h).alt_tail (Cursor.learn_rest _ _ _)

lemma many_succ (ih : RecognisesDerivations fuel) {again : Bool} {g : Grammar} {c d : Cursor}
    {ts : List Tree} (h : recogniseMany (fuel + 1) again g c = (.matched ts, d)) :
    (g.repeated again).Finds c ts d := by
  simp only [recogniseMany] at h
  split at h
  · rename_i b hnone
    simp only [Prod.mk.injEq, Outcome.matched.injEq] at h
    obtain ⟨rfl, rfl⟩ := h
    exact .nothing again g ((Cursor.accept_rest c b).trans ((recogniserStays fuel).one hnone))
  · rename_i trees b hone
    cases again with
    | true =>
        simp only [if_true] at h
        split at h
        · rename_i others e hmore
          simp only [Prod.mk.injEq, Outcome.matched.injEq] at h
          obtain ⟨rfl, rfl⟩ := h
          exact (ih.one hone).manyCons (ih.many hmore)
        · rename_i hother
          exact absurd h (hother _ _)
    | false =>
        simp only [Bool.false_eq_true, if_false, Prod.mk.injEq, Outcome.matched.injEq] at h
        obtain ⟨rfl, rfl⟩ := h
        exact (ih.one hone).present
  · split_ifs at h
    · simp at h
    · simp only [Prod.mk.injEq, Outcome.matched.injEq] at h
      obtain ⟨rfl, rfl⟩ := h
      exact .nothing again g ((Cursor.learn_rest _ _ _).trans (Cursor.note_rest _ _))

end RecognisesDerivations

/-- **Every amount of fuel recognises derivations only.**  The four functions call each other with
one unit of fuel less. -/
lemma recognisesDerivations (fuel : Nat) : RecognisesDerivations fuel := by
  induction fuel with
  | zero => exact .zero
  | succ fuel ih => exact ⟨ih.one_succ, ih.seq_succ, ih.alt_succ, ih.many_succ⟩

/-! ## Derived trees

The property is handed down to all trees below, as the readers go down by recursion on the tree.
-/

/-- A tree whose children derive from the rule that it names. -/
def Tree.Derived : Tree → Prop
  | .leaf _ => True
  | .node p _ ts => p.body.Derives ts

/-- All trees of a derivation are derived. -/
lemma Grammar.Derives.derived {g : Grammar} {ts : List Tree} (h : g.Derives ts) :
    ∀ t ∈ ts, t.Derived := by
  induction h with
  | literal _ => simp [Tree.Derived]
  | kind _ => simp [Tree.Derived]
  | rule h _ => simpa [Tree.Derived] using h
  | seqNil => simp
  | seqCons _ _ ih₁ ih₂ =>
      intro t ht
      rcases List.mem_append.mp ht with ht | ht
      · exact ih₁ t ht
      · exact ih₂ t ht
  | alt _ _ ih => exact ih
  | absent => simp
  | present _ ih => exact ih
  | manyNil => simp
  | manyCons _ _ ih₁ ih₂ =>
      intro t ht
      rcases List.mem_append.mp ht with ht | ht
      · exact ih₁ t ht
      · exact ih₂ t ht

/-- The trees below a derived tree are derived. -/
lemma Tree.Derived.children {p : Production} {pos : Position} {ts : List Tree}
    (h : (Tree.node p pos ts).Derived) : ∀ t ∈ ts, t.Derived :=
  Grammar.Derives.derived h

end Cellular
