import Cellular.Proofs.Source.Diagnostics
import Cellular.Proofs.Source.Parsing
import Cellular.Proofs.Source.Tiling

/-!
# Errors point into the text

A text may fail to be a rule for its characters, for its tokens or for the values of its numerals.
In each case the error stands where something stands in the text, and shows the line of that place.

* `IsLine` says which line of a text has a number; `exists_sourceLine`: the line of every place in a
  text is found.
* `Reading.FailsAt` says where a computation may fail; `failsAt_of_readExpr` and
  `failsAt_of_readStmt`: derivations are refused at their own places only.
* `Tree.Placed.standsAt`: the places of a derivation are those of its tokens.
* `ParseError.PointsInto` puts place and line together, and `parseWith_error` says so of parsers.

The three stages fail for different reasons.  The lexer stops where no rule matches, and says so at
that place.  The recogniser complains about a token.  The readers refuse derivations, at places that
stand in the tree, and derivations have the places of tokens; this is the longest of the three ways,
since readers combine the results of readers, and each of them could add a place of its own.  It
takes an induction on trees with an arbitrary property of places.
-/

namespace Cellular

/-! ## Lines

A line is known by its number, and the number of a place is the number of line breaks in front of
it. The definition says this of a text; the function that finds a line splits the text and counts.
-/

/-- `line` is the line of the text `src` with the number `n`, counted from 1: it reaches from a line
break, or the start of the text, to the next one, or the end. -/
def IsLine (src : List Char) (n : Int) (line : List Char) : Prop :=
  ∃ before after, src = before ++ line ++ after ∧ n = 1 + before.count '\n' ∧ '\n' ∉ line ∧
    (before = [] ∨ ∃ w, before = w ++ ['\n']) ∧ (after = [] ∨ ∃ w, after = '\n' :: w)

lemma splitOn_cons (c : Char) (cs : List Char) :
    (c :: cs).splitOn '\n'
      = if c = '\n' then [] :: cs.splitOn '\n' else (cs.splitOn '\n').modifyHead (c :: ·) := by
  simp only [List.splitOn_eq_splitOnP, List.splitOnP_cons_eq_if_modifyHead, beq_iff_eq]

/-- There is one line more than line breaks. -/
lemma length_splitOn (src : List Char) : (src.splitOn '\n').length = src.count '\n' + 1 := by
  induction src with
  | nil => simp
  | cons c cs ih =>
      rw [splitOn_cons]
      split_ifs with hc
      · rw [hc, List.length_cons, ih, List.count_cons_self]
      · rw [List.length_modifyHead, ih, List.count_cons_of_ne hc]

/-- A character in front of a text moves its lines on: all of them if it is a line break, and all
but the first one otherwise. -/
lemma IsLine.cons {cs line : List Char} {n : Int} {c : Char} (h : IsLine cs n line)
    (hc : c = '\n' ∨ 1 < n) : IsLine (c :: cs) (n + [c].count '\n') line := by
  obtain ⟨before, after, rfl, rfl, hline, hbefore, hafter⟩ := h
  have hcount : (c :: before).count '\n' = [c].count '\n' + before.count '\n' := by
    rw [← List.count_append, List.singleton_append]
  refine ⟨c :: before, after, rfl, by omega, hline, .inr ?_, hafter⟩
  rcases hbefore with rfl | ⟨w, rfl⟩
  · obtain rfl := hc.resolve_right (by simp)
    exact ⟨[], rfl⟩
  · exact ⟨c :: w, rfl⟩

/-- Any other character belongs to the first line. -/
lemma IsLine.cons_first {cs line : List Char} {c : Char} (h : IsLine cs 1 line) (hc : c ≠ '\n') :
    IsLine (c :: cs) 1 (c :: line) := by
  obtain ⟨before, after, rfl, hcount, hline, hbefore, hafter⟩ := h
  obtain rfl : before = [] := by
    refine hbefore.resolve_right ?_
    rintro ⟨w, rfl⟩
    rw [List.count_append, List.count_singleton_self] at hcount
    omega
  exact ⟨[], after, rfl, rfl, by simp [hline, Ne.symm hc], .inl rfl, hafter⟩

/-- **Splitting at line breaks finds the lines** in the order of their numbers. -/
lemma isLine_of_splitOn {src line : List Char} {k : Nat} (h : (src.splitOn '\n')[k]? = some line) :
    IsLine src (1 + k) line := by
  induction src generalizing k line with
  | nil =>
      rw [List.splitOn_nil, List.getElem?_singleton] at h
      split_ifs at h with hk
      cases h
      exact ⟨[], [], rfl, by simp [hk], by simp, .inl rfl, .inl rfl⟩
  | cons c cs ih =>
      rw [splitOn_cons] at h
      split_ifs at h with hc
      · subst hc
        cases k with
        | zero =>
            cases h
            exact ⟨[], '\n' :: cs, rfl, rfl, by simp, .inl rfl, .inr ⟨cs, rfl⟩⟩
        | succ k => exact (ih (by simpa using h)).cons (.inl rfl)
      · obtain ⟨first, more, hsplit⟩ := List.exists_cons_of_ne_nil (List.splitOn_ne_nil '\n' cs)
        rw [hsplit] at h ih
        cases k with
        | zero =>
            cases h
            exact (ih (k := 0) rfl).cons_first hc
        | succ k =>
            have hline := (ih (k := k + 1) (by simpa using h)).cons (c := c) (.inr (by omega))
            rwa [List.count_singleton, if_neg (by simpa using hc), Int.natCast_zero,
              Int.add_zero] at hline

/-- **The line of every place in a text is found**, and shown without carriage returns at its
end. -/
lemma exists_sourceLine (front rest : List Char) :
    ∃ line, IsLine (front ++ rest) (Position.behind front).line line ∧
      sourceLine (front ++ rest) (Position.behind front).line
        = String.ofList (line.rdropWhile (· = '\r')) := by
  have hlength := length_splitOn (front ++ rest)
  have hin : front.count '\n' < ((front ++ rest).splitOn '\n').length := by
    rw [hlength, List.count_append]
    omega
  have hget := List.getElem?_eq_getElem hin
  refine ⟨_, isLine_of_splitOn hget, ?_⟩
  have hnumber : (Position.behind front).line = 1 + front.count '\n' := rfl
  have hindex : ((Position.behind front).line - 1).toNat = front.count '\n' := by omega
  rw [sourceLine, if_neg (by omega), hindex, hget]
  rfl

/-! ## Places of derivations

The property `P` stands for "is the place of a token".  Nothing about tokens is used before the end.
-/

/-- The computation fails only at places with the property `P`. -/
def Reading.FailsAt {β : Type} (P : Position → Prop) : Reading β → Prop
  | .ok _ => True
  | .error (pos, _) => P pos

/-- The rules and tokens of a derivation all stand at places with the property `P`. -/
def Tree.StandsAt (P : Position → Prop) : Tree → Prop := Tree.Everywhere fun t => P t.pos

section Places

variable {P : Position → Prop} {β γ : Type}

namespace Tree.StandsAt

variable {p : Production} {pos : Position} {t : Tree} {ts : List Tree}

lemma here (h : t.StandsAt P) : P t.pos := Tree.Everywhere.here h

lemma children (h : (Tree.node p pos ts).StandsAt P) : ∀ t ∈ ts, t.StandsAt P :=
  (Tree.everywhere_node.mp h).2

lemma child (h : (Tree.node p pos ts).StandsAt P) (ht : t ∈ ts) : t.StandsAt P := h.children t ht

end Tree.StandsAt

lemma Reading.FailsAt.bind {r : Reading β} {f : β → Reading γ} (hr : r.FailsAt P)
    (hf : ∀ b, r = .ok b → (f b).FailsAt P) : (r >>= f).FailsAt P := by
  cases r with
  | error e => exact hr
  | ok b => exact hf b rfl

/-- A computation whose result is only put to use. -/
lemma Reading.FailsAt.map {r : Reading β} (hr : r.FailsAt P) (f : β → γ) :
    Reading.FailsAt P (do let b ← r; return f b) :=
  hr.bind fun _ _ => trivial

lemma readInt_failsAt {pos : Position} (hpos : P pos) (text : String) :
    (readInt pos text).FailsAt P := by
  simp only [readInt]
  split_ifs
  · trivial
  · exact hpos

lemma readFloat_failsAt {pos : Position} (hpos : P pos) (text : String) :
    (readFloat pos text).FailsAt P := by
  simp only [readFloat]
  split
  · split_ifs
    · exact hpos
    · trivial
  · exact hpos

/-- An operator that is left over is one of the chain. -/
lemma readChain_failsAt (head : Expr Position) {links : List (Link Position)}
    (h : ∀ k ∈ links, P k.note) : (readChain head links).FailsAt P := by
  obtain ⟨-, used, hsplit, -⟩ := Chain.climb_operands 1 (.operand head) links
  rw [readChain]
  split
  · trivial
  · rename_i c link more hrest
    rw [hrest] at hsplit
    exact h link (hsplit ▸ List.mem_append_right used List.mem_cons_self)

/-- **Expressions are refused at places of their derivations.**  Links keep these places, for an
operator that finds no place in the chain. -/
lemma failsAt_of_readExpr :
    (∀ t : Tree, t.StandsAt P → (readExpr t).FailsAt P) ∧
    ∀ ts : List Tree, (∀ t ∈ ts, t.StandsAt P) →
      (readLinks ts).FailsAt P ∧ ∀ ks, readLinks ts = .ok ks → ∀ k ∈ ks, P k.note := by
  apply readExpr.mutual_induct
  case case1 =>
    intro pos chain ih h
    rw [readExpr]
    exact ih (h.child (by simp))
  case case2 =>
    intro pos chain _ yes _ no ihchain ihyes ihno h
    rw [readExpr]
    exact (ihchain (h.child (by simp))).bind fun _ _ =>
      (ihyes (h.child (by simp))).bind fun _ _ => (ihno (h.child (by simp))).map _
  case case3 =>
    intro pos head links ihhead ihlinks h
    obtain ⟨hhead, hlinks⟩ := List.forall_mem_cons.mp h.children
    obtain ⟨hfails, hnotes⟩ := ihlinks hlinks
    rw [readExpr]
    exact (ihhead hhead).bind fun e _ => hfails.bind fun ks hks =>
      readChain_failsAt e (hnotes ks hks)
  case case4 =>
    intro pos primary ih h
    rw [readExpr]
    exact ih (h.child (by simp))
  case case5 =>
    -- the sign belongs to the least integer
    intro pos op operand e hleast _
    rw [readExpr, hleast]
    trivial
  case case6 =>
    intro pos op operand hleast ih h
    rw [readExpr, hleast]
    exact (ih (h.child (by simp))).map _
  case case7 =>
    intro pos t hkind h
    simp only [readExpr, hkind]
    exact readFloat_failsAt h.here t.text
  case case8 =>
    intro pos t hkind h
    simp only [readExpr, hkind]
    exact readInt_failsAt h.here t.text
  case case9 =>
    intro pos t hfloat hint _
    rw [readExpr]
    split
    · contradiction
    · contradiction
    · trivial
  case case10 =>
    intro pos pos' target _ operand _ ih h
    rw [readExpr]
    exact (ih ((h.child List.mem_cons_self).child (by simp))).map _
  case case11 =>
    intro pos pos' root more _
    rw [readExpr]
    trivial
  case case12 =>
    intro pos _ inner _ ih h
    rw [readExpr]
    exact ih (h.child (by simp))
  case case13 =>
    -- no derivation of an expression: refused where it stands
    intro t h₁ h₂ h₃ h₄ h₅ h₆ h₇ h₈ h₉ h
    rw [readExpr]
    · exact h.here
    all_goals assumption
  case case14 =>
    intro _
    rw [readLinks]
    exact ⟨trivial, by rintro ks ⟨⟩; simp⟩
  case case15 =>
    intro pos op operand more ihoperand ihmore h
    obtain ⟨hlink, hmore⟩ := List.forall_mem_cons.mp h
    obtain ⟨hfails, hnotes⟩ := ihmore hmore
    rw [readLinks]
    refine ⟨(ihoperand (hlink.child (by simp))).bind fun _ _ => hfails.map _, ?_⟩
    intro ks hks
    simp only [bind_eq_ok, pure_eq_ok] at hks
    obtain ⟨e, -, ks', hks', rfl⟩ := hks
    exact List.forall_mem_cons.mpr ⟨hlink.here, hnotes ks' hks'⟩
  case case16 =>
    intro t more hlink h
    rw [readLinks]
    · exact ⟨(List.forall_mem_cons.mp h).1.here, by rintro ks ⟨⟩⟩
    · exact hlink

/-- **Statements are refused at places of their derivations.** -/
lemma failsAt_of_readStmt :
    (∀ t : Tree, t.StandsAt P → (readStmt t).FailsAt P) ∧
    ∀ ts : List Tree, (∀ t ∈ ts, t.StandsAt P) → (readBlock ts).FailsAt P := by
  apply readStmt.mutual_induct
  case case1 =>
    intro pos inner ih h
    rw [readStmt]
    exact ih (h.child (by simp))
  case case2 =>
    intro pos _ more ih h
    rw [readStmt]
    exact (ih fun t ht => h.child (List.mem_cons_of_mem _ ht)).map _
  case case3 =>
    intro pos _ _ test _ body ih h
    rw [readStmt]
    exact (failsAt_of_readExpr.1 test (h.child (by simp))).bind fun _ _ =>
      (ih (h.child (by simp))).map _
  case case4 =>
    intro pos _ _ test _ yes _ no ihyes ihno h
    rw [readStmt]
    exact (failsAt_of_readExpr.1 test (h.child (by simp))).bind fun _ _ =>
      (ihyes (h.child (by simp))).bind fun _ _ => (ihno (h.child (by simp))).map _
  case case5 =>
    intro pos type name _ _
    rw [readStmt]
    trivial
  case case6 =>
    intro pos type name _ init _ h
    rw [readStmt]
    exact (failsAt_of_readExpr.1 init (h.child (by simp))).map _
  case case7 =>
    intro pos targetPos root more op value _ h
    rw [readStmt]
    exact (failsAt_of_readExpr.1 value (h.child (by simp))).map _
  case case8 =>
    -- no derivation of a statement: refused where it stands
    intro t h₁ h₂ h₃ h₄ h₅ h₆ h₇ h
    rw [readStmt]
    · exact h.here
    all_goals assumption
  case case9 =>
    intro _
    rw [readBlock]
    trivial
  case case10 =>
    intro token _
    rw [readBlock]
    trivial
  case case11 =>
    intro t more hlast ih ihmore h
    obtain ⟨ht, hmore⟩ := List.forall_mem_cons.mp h
    rw [readBlock]
    · exact (ih ht).bind fun _ _ => (ihmore hmore).map _
    · exact hlast

lemma readProgram_failsAt (t : Tree) (h : t.StandsAt P) : (readProgram t).FailsAt P := by
  rw [readProgram.eq_def]
  split
  · exact (failsAt_of_readStmt.2 _ h.children).map _
  · exact h.here

/-- **The places of a derivation are those of tokens**: a rule carries the place of its first token,
or that of the end. -/
lemma Tree.Placed.standsAt {last : Position} {t : Tree} (h : t.Placed last) (hlast : P last)
    (hleaves : ∀ k ∈ t.leaves, P k.pos) : t.StandsAt P := by
  induction t using Tree.induction with
  | leaf k =>
      rw [Tree.StandsAt, Tree.Everywhere]
      exact hleaves k (by simp)
  | node p pos ts ih =>
      obtain ⟨hhere, hbelow⟩ := Tree.everywhere_node.mp h
      rw [Tree.leaves_node] at hleaves
      refine Tree.everywhere_node.mpr ⟨?_, fun t ht =>
        ih t ht (hbelow t ht) fun k hk => hleaves k (Tree.mem_leavesAll ht hk)⟩
      rw [show pos = ((Tree.leavesAll ts).head?.map Token.pos).getD last from hhere]
      cases hfirst : (Tree.leavesAll ts).head? with
      | none => exact hlast
      | some k => exact hleaves k (List.mem_of_mem_head? hfirst)

end Places

/-! ## Whole texts

An error carries the text of its line.  Since the place is one in the text, there is such a line.
-/

/-- An error stands at a token of the text, the mark of the end included, or, if the text does not
split, where this fails; and it shows the line of its place without carriage returns at the end. -/
structure ParseError.PointsInto (src : List Char) (e : ParseError) : Prop where
  place : match lex src with
    | .ok tokens => ∃ t ∈ tokens, e.pos = t.pos
    | .error (_, e') => e.pos = e'.pos
  line : ∃ line, IsLine src e.pos.line line ∧ e.line = String.ofList (line.rdropWhile (· = '\r'))

/-- An error at a place in a text shows the line of the place. -/
lemma ParseError.exists_line {src front rest : List Char} (hsrc : src = front ++ rest)
    {pos : Position} (hpos : pos = .behind front) (cause : ParseCause) :
    ∃ line, IsLine src (ParseError.at src pos cause).pos.line line ∧
      (ParseError.at src pos cause).line = String.ofList (line.rdropWhile (· = '\r')) := by
  subst hsrc hpos
  exact exists_sourceLine front rest

/-- The tokens of a text that splits stand in it. -/
lemma exists_behind_of_lex {src : List Char} {tokens : List Token} (h : lex src = .ok tokens)
    {t : Token} (ht : t ∈ tokens) : ∃ front rest, src = front ++ rest ∧ t.pos = .behind front := by
  obtain ⟨ts, mid, rest, rfl, htiled, ⟨rfl, hlexed⟩ | ⟨-, -, hlexed⟩⟩ :=
    tiled_lexFrom src .start [] rfl
  · simp only [lex, hlexed, List.nil_append] at h
    cases h
    obtain ⟨front, rest, hmid, hpos⟩ := htiled.inOrder_concat.standing t ht
    exact ⟨front, t.text.toList ++ rest, by rw [List.append_nil, hmid, List.append_assoc], hpos⟩
  · simp only [lex, hlexed] at h
    cases h

/-- So does the place where a text does not split. -/
lemma exists_at_of_lex_error {src : List Char} {tokens : List Token} {e : ParseError}
    (h : lex src = .error (tokens, e)) :
    ∃ front rest cause, src = front ++ rest ∧ e = .at src (.behind front) cause := by
  obtain ⟨ts, mid, rest, rfl, -, ⟨rfl, hlexed⟩ | ⟨-, -, hlexed⟩⟩ :=
    tiled_lexFrom src .start [] rfl
  · simp only [lex, hlexed] at h
    cases h
  · simp only [lex, hlexed, List.nil_append] at h
    cases h
    exact ⟨mid, rest, _, rfl, rfl⟩

lemma ParseError.PointsInto.of_mem {src : List Char} {tokens : List Token} {t : Token}
    (hlex : lex src = .ok tokens) (ht : t ∈ tokens) {pos : Position} (hpos : pos = t.pos)
    (cause : ParseCause) : (ParseError.at src pos cause).PointsInto src := by
  obtain ⟨front, rest, hsrc, hbehind⟩ := exists_behind_of_lex hlex ht
  refine ⟨?_, ParseError.exists_line hsrc (hpos.trans hbehind) cause⟩
  rw [hlex]
  exact ⟨t, ht, hpos⟩

lemma ParseError.PointsInto.of_lex {src : List Char} {tokens : List Token} {e : ParseError}
    (hlex : lex src = .error (tokens, e)) : e.PointsInto src := by
  obtain ⟨front, rest, cause, hsrc, rfl⟩ := exists_at_of_lex_error hlex
  refine ⟨?_, ParseError.exists_line hsrc rfl cause⟩
  rw [hlex]

/-- **Every error of a parser points into the text.** -/
lemma parseWith_error {β : Type} {p : Production} {read : Tree → Reading β}
    (hp : p = .program ∨ p = .expr)
    (hread : ∀ (P : Position → Prop) (t : Tree), t.StandsAt P → (read t).FailsAt P) {src : String}
    {e : ParseError} (h : parseWith p read src = .error e) : e.PointsInto src.toList := by
  simp only [parseWith] at h
  split at h
  · rename_i tokens e' hlex
    cases h
    exact .of_lex hlex
  · rename_i tokens hlex
    obtain ⟨ts, last, rfl, hkind, htext, hts⟩ := lex_ok hlex
    split at h
    · rename_i u hfailed
      cases h
      exact .of_mem hlex (parseTree_error_mem ⟨hkind, htext⟩ hfailed) rfl u.cause
    · rename_i t htree
      obtain ⟨hderivation, -, hplaced⟩ := (parseTree_eq_ok_iff hp hts ⟨hkind, htext⟩).mp htree
      have hstands : t.StandsAt fun pos => ∃ k ∈ ts ++ [last], pos = k.pos := by
        refine hplaced.standsAt ⟨last, by simp, rfl⟩ fun k hk => ⟨k, ?_, rfl⟩
        rw [hderivation.leaves] at hk
        exact List.mem_append_left _ hk
      have hfails := hread _ t hstands
      split at h
      · rename_i pos cause hreadt
        cases h
        rw [hreadt] at hfails
        obtain ⟨k, hk, hpos⟩ := hfails
        exact .of_mem hlex hk hpos cause
      · cases h

end Cellular
