import Cellular.Proofs.Source.Derivation

/-!
# Diagnostics name tokens

The recogniser complains of a token that the grammar does not allow.  It looks at one token at a
time, carries the deepest diagnostic along and moves on behind tokens only, so whatever it says is
about a token of the text; the mark of the end is one of them, and nothing stands behind it.

* `Cursor.Within` are the states that know nothing but the tokens of a text.
* `recogniserWithin`: the four functions of the recogniser lead from such states to such states.
* `parseTree_error_mem`: a text that does not derive is refused at one of its tokens.

That an error is about a token of the text may seem to go without saying.  But diagnostics are made
in many places of the recogniser, are kept while other alternatives are tried, and are compared by
how far they got.  The invariant `Cursor.Within` holds of every cursor that turns up on the way, and
so nothing has to be known about which of the diagnostics wins in the end.  The form of the proof is
that of the recogniser: one field for each function, and an induction on the fuel.  It needs that
the mark of the end is never passed, for which the grammar must be proper.
-/

namespace Cellular

/-- The state `c` knows nothing but the tokens of a text: those to come reach up to the mark of the
end, and the diagnostic that it carries is about one of them. -/
structure Cursor.Within (tokens : List Token) (c : Cursor) : Prop where
  known : ∀ k ∈ c.rest, k ∈ tokens
  ends : ∃ last, c.rest.getLast? = some last ∧ last.kind = .eof ∧ last.text = ""
  deepest : ∀ u, c.deepest = some u → u.token ∈ tokens

namespace Cursor.Within

variable {tokens : List Token} {b c : Cursor} {u : Unexpected}

lemma next_mem (h : c.Within tokens) : c.next ∈ tokens := by
  obtain ⟨last, hlast, -⟩ := h.ends
  obtain ⟨rest, index, deepest, depth⟩ := c
  cases rest with
  | nil => cases hlast
  | cons k rest => exact h.known k List.mem_cons_self

/-- Behind a token that is not the mark of the end there are more. -/
lemma advance (h : c.Within tokens) (hnext : ¬ (c.next.kind = .eof ∧ c.next.text = "")) :
    c.advance.Within tokens := by
  obtain ⟨last, hlast, hend⟩ := h.ends
  obtain ⟨rest, index, deepest, depth⟩ := c
  cases rest with
  | nil => cases hlast
  | cons k rest =>
      refine ⟨fun t ht => h.known t (List.mem_cons_of_mem k ht), ⟨last, ?_, hend⟩, h.deepest⟩
      cases rest with
      | nil =>
          cases hlast
          exact absurd hend hnext
      | cons k' rest => simpa [Cursor.advance] using hlast

lemma note (h : c.Within tokens) (hu : u.token ∈ tokens) : (c.note u).Within tokens := by
  rw [Cursor.note]
  split_ifs
  · exact ⟨h.known, h.ends, by simpa using hu⟩
  · exact h

lemma accept (h : c.Within tokens) (hb : b.Within tokens) : (c.accept b).Within tokens := by
  simp only [Cursor.accept]
  split_ifs
  · exact ⟨hb.known, hb.ends, hb.deepest⟩
  · exact ⟨hb.known, hb.ends, h.deepest⟩

lemma learn (h : c.Within tokens) (hb : b.Within tokens) (hu : u.token ∈ tokens) :
    (c.learn b u).Within tokens := by
  rw [Cursor.learn]
  split_ifs
  · exact ⟨h.known, h.ends, hb.deepest⟩
  · exact ⟨h.known, h.ends, by simpa using hu⟩
  · exact h

end Cursor.Within

/-- A result about the tokens of a text, and the state behind it. -/
structure OutcomeWithin (tokens : List Token) (r : Outcome × Cursor) : Prop where
  failed : ∀ u, r.1 = .failed u → u.token ∈ tokens
  cursor : r.2.Within tokens

/-- A result that is no failure says nothing about tokens. -/
lemma OutcomeWithin.of_cursor {tokens : List Token} {r : Outcome × Cursor}
    (hne : ∀ u, r.1 ≠ .failed u) (h : r.2.Within tokens) : OutcomeWithin tokens r :=
  ⟨fun u hu => absurd hu (hne u), h⟩

/-- What the four functions of the recogniser know with a given amount of fuel. -/
structure RecogniserWithin (tokens : List Token) (fuel : Nat) : Prop where
  one : ∀ {g : Grammar} {c : Cursor}, g.proper = true → c.Within tokens →
    OutcomeWithin tokens (recognise fuel g c)
  seq : ∀ {first : Bool} {gs : List Grammar} {c : Cursor}, Grammar.allProper gs = true →
    c.Within tokens → OutcomeWithin tokens (recogniseSeq fuel first gs c)
  alt : ∀ {gs : List Grammar} {reach : Nat} {best : Option Unexpected} {c : Cursor},
    Grammar.allProper gs = true → (∀ u, best = some u → u.token ∈ tokens) → c.Within tokens →
      OutcomeWithin tokens (recogniseAlt fuel gs reach best c)
  many : ∀ {again : Bool} {g : Grammar} {c : Cursor}, g.proper = true → c.Within tokens →
    OutcomeWithin tokens (recogniseMany fuel again g c)

namespace RecogniserWithin

variable {tokens : List Token} {fuel : Nat} {c : Cursor}

lemma zero : RecogniserWithin tokens 0 where
  one _ h := .of_cursor (by simp [recognise]) h
  seq {first gs c} _ h := by
    cases first
    · refine ⟨?_, h⟩
      rintro u ⟨⟩
      exact h.next_mem
    · exact .of_cursor (by simp [recogniseSeq]) h
  alt _ _ h := .of_cursor (by simp [recogniseAlt]) h
  many _ h := .of_cursor (by simp [recogniseMany]) h

lemma one_succ (ih : RecogniserWithin tokens fuel) {g : Grammar} (hg : g.proper = true)
    (h : c.Within tokens) : OutcomeWithin tokens (recognise (fuel + 1) g c) := by
  cases g with
  | literal text =>
      simp only [recognise]
      split_ifs with htext
      · refine .of_cursor (by simp) (h.advance ?_)
        rintro ⟨-, hempty⟩
        rw [← htext, hempty] at hg
        exact absurd hg (by decide)
      · exact .of_cursor (by simp) h
  | kind k =>
      simp only [recognise]
      split_ifs with hkind
      · refine .of_cursor (by simp) (h.advance ?_)
        rintro ⟨heof, -⟩
        rw [← hkind, heof] at hg
        exact absurd hg (by decide)
      · exact .of_cursor (by simp) h
  | rule p =>
      have hbody := ih.one p.body_proper h
      simp only [recognise]
      generalize recognise fuel p.body c = r at hbody
      obtain ⟨_ | trees | u, b⟩ := r
      · exact hbody
      · exact .of_cursor (by simp) hbody.cursor
      · exact ⟨hbody.failed, hbody.cursor.note (hbody.failed u rfl)⟩
  | seq items =>
      simp only [recognise]
      exact ih.seq hg h
  | alt items =>
      simp only [recognise]
      exact ih.alt hg (by simp) h
  | optional item =>
      simp only [recognise]
      exact ih.many hg h
  | many item =>
      simp only [recognise]
      exact ih.many hg h

lemma seq_succ (ih : RecogniserWithin tokens fuel) {first : Bool} {gs : List Grammar}
    (hgs : Grammar.allProper gs = true) (h : c.Within tokens) :
    OutcomeWithin tokens (recogniseSeq (fuel + 1) first gs c) := by
  cases gs with
  | nil => exact .of_cursor (by simp [recogniseSeq]) h
  | cons g gs =>
      simp only [Grammar.allProper, Bool.and_eq_true] at hgs
      have hhead := ih.one hgs.1 h
      simp only [recogniseSeq]
      generalize recognise fuel g c = r at hhead
      obtain ⟨_ | trees | u, b⟩ := r
      · cases first
        · refine ⟨?_, hhead.cursor⟩
          rintro u ⟨⟩
          exact hhead.cursor.next_mem
        · exact hhead
      · have htail : OutcomeWithin tokens (recogniseSeq fuel false gs b) :=
          ih.seq hgs.2 hhead.cursor
        simp only
        generalize recogniseSeq fuel false gs b = r at htail
        obtain ⟨_ | others | u, d⟩ := r
        · exact htail
        · exact .of_cursor (by simp) htail.cursor
        · exact htail
      · exact hhead

lemma alt_succ (ih : RecogniserWithin tokens fuel) {gs : List Grammar} {reach : Nat}
    {best : Option Unexpected} (hgs : Grammar.allProper gs = true)
    (hbest : ∀ u, best = some u → u.token ∈ tokens) (h : c.Within tokens) :
    OutcomeWithin tokens (recogniseAlt (fuel + 1) gs reach best c) := by
  cases gs with
  | nil =>
      cases best with
      | none => exact .of_cursor (by simp [recogniseAlt]) h
      | some u =>
          refine ⟨?_, h.note (hbest u rfl)⟩
          rintro u' ⟨⟩
          exact hbest u rfl
  | cons g gs =>
      simp only [Grammar.allProper, Bool.and_eq_true] at hgs
      have hfirst := ih.one hgs.1 h
      simp only [recogniseAlt]
      generalize recognise fuel g c = r at hfirst
      obtain ⟨_ | trees | u, b⟩ := r
      · exact ih.alt hgs.2 hbest h
      · exact .of_cursor (by simp) (h.accept hfirst.cursor)
      · have hu : u.token ∈ tokens := hfirst.failed u rfl
        have hlearn : (c.learn b u).Within tokens := h.learn hfirst.cursor hu
        simp only
        split_ifs
        · exact ⟨hfirst.failed, hlearn.accept hfirst.cursor⟩
        · exact ih.alt hgs.2 (by simpa using hu) hlearn
        · exact ih.alt hgs.2 hbest hlearn

lemma many_succ (ih : RecogniserWithin tokens fuel) {again : Bool} {g : Grammar}
    (hg : g.proper = true) (h : c.Within tokens) :
    OutcomeWithin tokens (recogniseMany (fuel + 1) again g c) := by
  have hone := ih.one hg h
  simp only [recogniseMany]
  generalize recognise fuel g c = r at hone
  obtain ⟨_ | trees | u, b⟩ := r
  · exact .of_cursor (by simp) (h.accept hone.cursor)
  · have haccept := h.accept hone.cursor
    cases again
    · exact .of_cursor (by simp) haccept
    · have hmore : OutcomeWithin tokens (recogniseMany fuel true g (c.accept b)) :=
        ih.many hg haccept
      simp only [if_true]
      generalize recogniseMany fuel true g (c.accept b) = r at hmore
      obtain ⟨_ | others | u, d⟩ := r
      · exact hmore
      · exact .of_cursor (by simp) hmore.cursor
      · exact hmore
  · have hu : u.token ∈ tokens := hone.failed u rfl
    have hlearn : ((c.note u).learn b u).Within tokens := (h.note hu).learn hone.cursor hu
    simp only
    split_ifs
    · exact ⟨hone.failed, hlearn.accept hone.cursor⟩
    · exact .of_cursor (by simp) hlearn

end RecogniserWithin

/-- **The recogniser never leaves the tokens of a text.**  Only tokens that are no mark of the end
are passed, and diagnostics are made of tokens that are next. -/
lemma recogniserWithin (tokens : List Token) (fuel : Nat) : RecogniserWithin tokens fuel := by
  induction fuel with
  | zero => exact .zero
  | succ fuel ih => exact ⟨ih.one_succ, ih.seq_succ, ih.alt_succ, ih.many_succ⟩

/-- The diagnostic for a text that goes on where it should end is about one of its tokens. -/
lemma Cursor.Within.final_mem {tokens : List Token} {c : Cursor} (h : c.Within tokens) :
    (parseTree.final c).token ∈ tokens := by
  rw [parseTree.final]
  split_ifs
  · exact h.next_mem
  · cases hdeepest : c.deepest with
    | none => exact h.next_mem
    | some u => exact h.deepest u hdeepest

/-- **A text that does not derive is refused at one of its tokens**, the mark of the end
included. -/
lemma parseTree_error_mem {p : Production} {tokens : List Token} {last : Token} {u : Unexpected}
    (hlast : last.kind = .eof ∧ last.text = "") (h : parseTree p (tokens ++ [last]) = .error u) :
    u.token ∈ tokens ++ [last] := by
  have hstart : Cursor.Within (tokens ++ [last]) { rest := tokens ++ [last] } :=
    ⟨fun k hk => hk, ⟨last, List.getLast?_concat, hlast⟩, by simp⟩
  have hresult := (recogniserWithin _ (recogniserFuel (tokens ++ [last]).length)).one
    (g := .rule p) rfl hstart
  rw [parseTree] at h
  split at h
  · rename_i u' d hfailed
    cases h
    exact hresult.failed u (by rw [hfailed])
  · rename_i tree d hmatched
    split_ifs at h
    cases h
    rw [hmatched] at hresult
    exact hresult.cursor.final_mem
  · rename_i r d hother
    cases h
    rw [hother] at hresult
    exact hresult.cursor.final_mem

end Cellular
