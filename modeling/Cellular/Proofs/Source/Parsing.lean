import Cellular.Proofs.Source.Settling
import Cellular.Proofs.Source.Writing

/-!
# Parsers accept exactly their grammar

A text is split into tokens, its tokens are derived and the derivation is read.  Each of the three
stages is known by now; together they say which texts are accepted and what comes out of them.

* `Tree.DerivationOf` are the derivations of a list of tokens.
* `parseTree_eq_ok_iff`: the tree of a text is the one derivation of its tokens in which every
  second branch belongs to the nearest open condition.
* `Stmt.NearestElse` says the same of what is read from it.
* `Expr.writtenAs_of_parse` and `Program.writtenAs_of_parse`: what is read is written as the tokens
  of its text, hence spelled (`Expr.spelled_of_parse`, `Program.spelled_of_parse`).
* `AcceptsGrammar` is what a parser of a rule does, and `parsers_accept_grammar` says so of the
  parsers of programs and expressions.

The three stages have been described by relations that do not compute: words and gaps for the lexer,
derivations with nearest branches for the recogniser, fitting numerals for the readers.  Here they
are composed.  The grammar is ambiguous in one place only, a second branch behind two open
conditions, and there the recogniser takes the nearest; the theorem does not assume this of the
derivation of a text, but shows that a derivation can be settled so, which is why accepting needs
any derivation at all and not the right one.
-/

namespace Cellular

/-- A derivation of the tokens `tokens` from the rule `p`. -/
structure Tree.DerivationOf (p : Production) (tokens : List Token) (t : Tree) : Prop where
  derives : (Grammar.rule p).Derives [t]
  leaves : t.leaves = tokens

lemma Tree.DerivationOf.isA {p : Production} {tokens : List Token} {t : Tree}
    (h : t.DerivationOf p tokens) : t.IsA p := by
  obtain ⟨t', ht, hisA⟩ := h.derives.isA
  cases ht
  exact hisA

/-! ## The tree of a text

One direction is that the recogniser finds derivations only, the other that it finds the settled
ones. As it is a function, there is one settled derivation at most.
-/

lemma Grammar.proper_of_mem {g : Grammar} {gs : List Grammar} (h : Grammar.allProper gs = true)
    (hg : g ∈ gs) : g.proper = true := by
  induction gs with
  | nil => cases hg
  | cons g' gs ih =>
      simp only [Grammar.allProper, Bool.and_eq_true] at h
      rcases List.mem_cons.mp hg with rfl | hg
      · exact h.1
      · exact ih h.2 hg

/-- No token of a derivation is the mark of the end. -/
lemma Grammar.Derives.leaves_ne_end {g : Grammar} {ts : List Tree} (h : g.Derives ts)
    (hproper : g.proper = true) : ∀ k ∈ Tree.leavesAll ts, ¬ (k.kind = .eof ∧ k.text = "") := by
  induction h with
  | literal h =>
      subst h
      simp only [Grammar.proper, decide_eq_true_eq] at hproper
      simp [hproper]
  | kind h =>
      subst h
      simp only [Grammar.proper, decide_eq_true_eq] at hproper
      simp [hproper]
  | @rule p pos ts _ ih => simpa using ih p.body_proper
  | seqNil => simp
  | seqCons _ _ ih₁ ih₂ =>
      simp only [Grammar.proper, Grammar.allProper, Bool.and_eq_true] at hproper
      rw [Tree.leavesAll_append]
      exact List.forall_mem_append.mpr ⟨ih₁ hproper.1, ih₂ hproper.2⟩
  | alt mem _ ih =>
      exact ih (Grammar.proper_of_mem hproper mem)
  | absent => simp
  | present _ ih => exact ih hproper
  | manyNil => simp
  | manyCons _ _ ih₁ ih₂ =>
      rw [Tree.leavesAll_append]
      exact List.forall_mem_append.mpr ⟨ih₁ hproper, ih₂ hproper⟩

/-- The tree of a text is a derivation of its tokens. -/
lemma derivationOf_of_parseTree {p : Production} {tokens : List Token} {last : Token} {t : Tree}
    (h : parseTree p (tokens ++ [last]) = .ok t) (htokens : ∀ k ∈ tokens, k.Lexical)
    (hlast : last.kind = .eof ∧ last.text = "") : t.DerivationOf p tokens := by
  rw [parseTree] at h
  split at h
  · cases h
  · rename_i tree c hmatch
    split_ifs at h with hend
    cases h
    have hfinds := (recognisesDerivations _).one hmatch
    refine ⟨hfinds.derives, ?_⟩
    have hleaves : tokens ++ [last] = t.leaves ++ c.rest := by simpa using hfinds.leaves rfl
    have hne : last ∉ t.leaves := fun hmem =>
      hfinds.derives.leaves_ne_end rfl last (by simpa using hmem) hlast
    rw [Cursor.next] at hend
    rcases List.append_eq_append_iff.mp hleaves with ⟨used, hused, hrest⟩ | ⟨left, hleft, hrest⟩
    · -- the end is not among the tokens of the tree
      cases used with
      | nil => simpa using hused
      | cons k used =>
          obtain ⟨rfl, -⟩ : last = k ∧ _ := by simpa using hrest
          exact absurd (by simp [hused]) hne
    · -- the walk stops at the end, which is no word
      cases left with
      | nil => simpa using hleft.symm
      | cons k left =>
          rw [hrest] at hend
          exact absurd hend (htokens k (by simp [hleft])).ne_eof
  · cases h

/-- Both rules that a text may be derived from end with it. -/
lemma eof_mem_follow {p : Production} (hp : p = .program ∨ p = .expr) : .kind .eof ∈ p.follow := by
  rcases hp with rfl | rfl <;> decide

/-- **The tree of a text is the derivation of its tokens** in which every second branch belongs to
the nearest open condition and every rule carries its place; there is only one. -/
lemma parseTree_eq_ok_iff {p : Production} (hp : p = .program ∨ p = .expr) {tokens : List Token}
    {last : Token} (htokens : ∀ k ∈ tokens, k.Lexical)
    (hlast : last.kind = .eof ∧ last.text = "") {t : Tree} :
    parseTree p (tokens ++ [last]) = .ok t ↔
      t.DerivationOf p tokens ∧ t.NearestElse ∧ t.Placed last.pos := by
  have hfound : ∀ {t : Tree}, t.IsA p → t.leaves = tokens → t.NearestElse → t.Placed last.pos →
      parseTree p (tokens ++ [last]) = .ok t := by
    rintro t hisA rfl hnearest hplaced
    exact hisA.parseTree (eof_mem_follow hp) hlast hplaced hnearest fun k hk => .inl (htokens k hk)
  constructor
  · intro h
    have hderivation := derivationOf_of_parseTree h htokens hlast
    obtain ⟨t', ht', hplaced⟩ := hderivation.isA.exists_settled hp last.pos
    have hparse := hfound ht'.isA (ht'.leaves.trans hderivation.leaves) ht'.nearest hplaced
    rw [h] at hparse
    cases hparse
    exact ⟨hderivation, ht'.nearest, hplaced⟩
  · rintro ⟨hderivation, hnearest, hplaced⟩
    exact hfound hderivation.isA hderivation.leaves hnearest hplaced

/-! ## Branches of what is read

Reading forgets the tree, but not how its conditions nest.
-/

namespace Stmt

variable {α : Type}

/-- A statement that ends with a condition without a second branch. -/
def isOpen : Stmt α → Bool
  | .when .. => true
  | .branch _ _ _ no => no.isOpen
  | _ => false

mutual

/-- Every second branch belongs to the nearest condition before it that is still open: no condition
has a second branch that could have gone to its first one. -/
def NearestElse : Stmt α → Prop
  | .block _ body => AllNearestElse body
  | .declare .. | .assign .. => True
  | .when _ _ body => NearestElse body
  | .branch _ _ yes no => yes.isOpen = false ∧ NearestElse yes ∧ NearestElse no

/-- The same of several statements. -/
def AllNearestElse : List (Stmt α) → Prop
  | [] => True
  | s :: ss => NearestElse s ∧ AllNearestElse ss

end

end Stmt

/-- Reading keeps the branches where they are. -/
lemma nearestElse_of_readStmt :
    (∀ t : Tree, t.NearestElse → ∀ s, readStmt t = .ok s →
      s.isOpen = t.isOpen ∧ s.NearestElse) ∧
    ∀ ts : List Tree, (∀ t ∈ ts, t.NearestElse) → ∀ ss, readBlock ts = .ok ss →
      Stmt.AllNearestElse ss := by
  apply readStmt.mutual_induct
  case case1 =>
    intro pos inner ih ht s h
    rw [readStmt] at h
    rw [Tree.isOpen]
    exact ih ((Tree.nearestElse_node.mp ht).2 inner (by simp)) s h
  case case2 =>
    intro pos first more ih ht s h
    simp only [readStmt, bind_eq_ok, pure_eq_ok] at h
    obtain ⟨body, hbody, rfl⟩ := h
    rw [Tree.isOpen_of_ne (by decide) (by decide)]
    refine ⟨rfl, ?_⟩
    rw [Stmt.NearestElse]
    exact ih (fun t hmem => (Tree.nearestElse_node.mp ht).2 t (by simp [hmem])) body hbody
  case case3 =>
    intro pos _ _ test _ body ih ht s h
    simp only [readStmt, bind_eq_ok, pure_eq_ok] at h
    obtain ⟨test', -, body', hbody, rfl⟩ := h
    obtain ⟨-, hnearest⟩ := ih ((Tree.nearestElse_node.mp ht).2 body (by simp)) body' hbody
    exact ⟨by rw [Stmt.isOpen, Tree.isOpen], by rwa [Stmt.NearestElse]⟩
  case case4 =>
    intro pos _ _ test _ yes _ no ihyes ihno ht s h
    simp only [readStmt, bind_eq_ok, pure_eq_ok] at h
    obtain ⟨test', -, yes', hyes, no', hno, rfl⟩ := h
    obtain ⟨helse, hbelow⟩ := Tree.nearestElse_node.mp ht
    obtain ⟨hopenyes, hnearestyes⟩ := ihyes (hbelow yes (by simp)) yes' hyes
    obtain ⟨hopenno, hnearestno⟩ := ihno (hbelow no (by simp)) no' hno
    rw [Stmt.isOpen, Tree.isOpen, Stmt.NearestElse]
    exact ⟨hopenno, hopenyes.trans helse, hnearestyes, hnearestno⟩
  case case5 =>
    intro pos type name _ _ s h
    rw [readStmt] at h
    cases h
    rw [Stmt.isOpen, Tree.isOpen_of_ne (by decide) (by decide), Stmt.NearestElse]
    all_goals simp
  case case6 =>
    intro pos type name _ init _ _ s h
    simp only [readStmt, bind_eq_ok, pure_eq_ok] at h
    obtain ⟨e, -, rfl⟩ := h
    rw [Stmt.isOpen, Tree.isOpen_of_ne (by decide) (by decide), Stmt.NearestElse]
    all_goals simp
  case case7 =>
    intro pos targetPos root more op value _ _ s h
    simp only [readStmt, bind_eq_ok, pure_eq_ok] at h
    obtain ⟨e, -, rfl⟩ := h
    rw [Stmt.isOpen, Tree.isOpen_of_ne (by decide) (by decide), Stmt.NearestElse]
    all_goals simp
  case case8 =>
    intro t h₁ h₂ h₃ h₄ h₅ h₆ h₇ _ s h
    rw [readStmt] at h
    · cases h
    all_goals assumption
  case case9 =>
    intro _ ss h
    rw [readBlock] at h
    cases h
    rw [Stmt.AllNearestElse]
    trivial
  case case10 =>
    intro token _ ss h
    rw [readBlock] at h
    cases h
    rw [Stmt.AllNearestElse]
    trivial
  case case11 =>
    intro t more hlast ih ihmore hts ss h
    rw [readBlock] at h
    · simp only [bind_eq_ok, pure_eq_ok] at h
      obtain ⟨s, hs, ss', hss, rfl⟩ := h
      obtain ⟨ht, hmore⟩ := List.forall_mem_cons.mp hts
      rw [Stmt.AllNearestElse]
      exact ⟨(ih ht s hs).2, ihmore hmore ss' hss⟩
    · exact hlast

lemma nearestElse_of_readProgram {t : Tree} (ht : t.NearestElse) {program : Program Position}
    (h : readProgram t = .ok program) : Stmt.AllNearestElse program.body := by
  simp only [readProgram] at h
  split at h
  · simp only [bind_eq_ok, pure_eq_ok] at h
    obtain ⟨body, hbody, rfl⟩ := h
    exact nearestElse_of_readStmt.2 _ (Tree.nearestElse_node.mp ht).2 body hbody
  · cases h

/-! ## Texts

The statement is a structure with named parts, for any rule and any reader, and has two instances.
-/

/-- The causes that only a tree outside the grammar could have. -/
def ParseCause.IsFallback : ParseCause → Prop
  | .emptyStatement | .missingExpression | .strayOperator _ => True
  | _ => False

lemma ParseCause.OfRange.not_isFallback {cause : ParseCause} (h : cause.OfRange) :
    ¬ cause.IsFallback := by
  cases cause <;> first | exact id | cases h

/-- What a parser of the rule `p` does that reads derivations by `read`, where `written` relates a
result to the tokens that it may be written as. -/
structure AcceptsGrammar {β : Type} (p : Production) (read : Tree → Reading β)
    (written : β → List Token → Prop) (parse : String → Except ParseError β) : Prop where
  /-- A text is accepted exactly if it splits into tokens that derive from the rule and whose
  numerals fit. -/
  accepts_iff : ∀ src : String, (∃ v, parse src = .ok v) ↔
    ∃ tokens last t, lex src.toList = .ok (tokens ++ [last]) ∧ last.kind = .eof ∧
      Tree.DerivationOf p tokens t ∧ t.Fits false
  /-- The result is read from the derivation with nearest branches. -/
  result_iff : ∀ (src : String) (v : β), parse src = .ok v ↔
    ∃ tokens last t, lex src.toList = .ok (tokens ++ [last]) ∧ last.kind = .eof ∧
      Tree.DerivationOf p tokens t ∧ t.NearestElse ∧ t.Placed last.pos ∧ read t = .ok v
  /-- There is only one such derivation. -/
  unique : ∀ (src : String) (tokens : List Token) (last : Token),
    lex src.toList = .ok (tokens ++ [last]) → ∀ t t' : Tree,
      t.DerivationOf p tokens → t.NearestElse → t.Placed last.pos →
      t'.DerivationOf p tokens → t'.NearestElse → t'.Placed last.pos → t = t'
  /-- The result holds the tokens of the text: none is lost, added or moved. -/
  written : ∀ (src : String) (v : β), parse src = .ok v →
    ∃ tokens last, lex src.toList = .ok (tokens ++ [last]) ∧ last.kind = .eof ∧ written v tokens
  /-- No derivation is one that the reader has no answer to. -/
  not_fallback : ∀ (src : String) (e : ParseError), parse src = .error e → ¬ e.cause.IsFallback

/-- The parts of a text that splits. -/
lemma lex_append_ok {cs : List Char} {tokens : List Token} {last : Token}
    (h : lex cs = .ok (tokens ++ [last])) :
    (∀ k ∈ tokens, k.Lexical) ∧ last.kind = .eof ∧ last.text = "" := by
  obtain ⟨ts, last', heq, hkind, htext, hts⟩ := lex_ok h
  obtain ⟨rfl, hlast⟩ := List.append_inj' heq rfl
  cases hlast
  exact ⟨hts, hkind, htext⟩

lemma lex_error_cause {cs : List Char} {tokens : List Token} {e : ParseError}
    (h : lex cs = .error (tokens, e)) : ∃ rest, e.cause = .invalidText rest := by
  simp only [lex] at h
  split at h
  · cases h
  · cases h
    exact ⟨_, rfl⟩

/-- What a parser accepts has passed the three stages. -/
lemma parseWith_stages {β : Type} {p : Production} {read : Tree → Reading β} {src : String} {v : β}
    (h : parseWith p read src = .ok v) :
    ∃ tokens t, lex src.toList = .ok tokens ∧ parseTree p tokens = .ok t ∧ read t = .ok v := by
  simp only [parseWith] at h
  split at h
  · cases h
  · rename_i tokens hlex
    split at h
    · cases h
    · rename_i t ht
      split at h
      · cases h
      · rename_i v' hv
        cases h
        exact ⟨tokens, t, hlex, ht, hv⟩

/-- **What a parser accepts** is read from the derivation of its tokens with nearest branches. -/
lemma parseWith_eq_ok_iff {β : Type} {p : Production} (hp : p = .program ∨ p = .expr)
    {read : Tree → Reading β} {src : String} {v : β} :
    parseWith p read src = .ok v ↔
      ∃ tokens last t, lex src.toList = .ok (tokens ++ [last]) ∧ last.kind = .eof ∧
        Tree.DerivationOf p tokens t ∧ t.NearestElse ∧ t.Placed last.pos ∧ read t = .ok v := by
  constructor
  · intro h
    obtain ⟨tokens, t, hlex, htree, hreadt⟩ := parseWith_stages h
    obtain ⟨ts, last, rfl, hkind, htext, hts⟩ := lex_ok hlex
    obtain ⟨ht, hnearest, hplaced⟩ := (parseTree_eq_ok_iff hp hts ⟨hkind, htext⟩).mp htree
    exact ⟨ts, last, t, hlex, hkind, ht, hnearest, hplaced, hreadt⟩
  · rintro ⟨tokens, last, t, hlex, -, ht, hnearest, hplaced, hreadt⟩
    obtain ⟨htokens, hlast⟩ := lex_append_ok hlex
    simp only [parseWith, hlex,
      (parseTree_eq_ok_iff hp htokens hlast).mpr ⟨ht, hnearest, hplaced⟩, hreadt]

/-- What is read from such a derivation is written as the tokens of the text. -/
lemma written_of_parseWith {β : Type} {p : Production} (hp : p = .program ∨ p = .expr)
    {read : Tree → Reading β} {written : β → List Token → Prop}
    (hwritten : ∀ {last : Position} {t : Tree} {v : β}, t.IsA p → t.Faithful last →
      read t = .ok v → written v t.leaves) {src : String} {v : β}
    (h : parseWith p read src = .ok v) :
    ∃ tokens last, lex src.toList = .ok (tokens ++ [last]) ∧ last.kind = .eof ∧
      written v tokens := by
  obtain ⟨tokens, last, t, hlex, hlast, ht, -, hplaced, hread⟩ := (parseWith_eq_ok_iff hp).mp h
  obtain ⟨htokens, -⟩ := lex_append_ok hlex
  have hfaithful : t.Faithful last.pos := ⟨hplaced, by rwa [ht.leaves]⟩
  exact ⟨tokens, last, hlex, hlast, ht.leaves ▸ hwritten ht.isA hfaithful hread⟩

/-- An expression that was read is written as the tokens of its text. -/
lemma Expr.writtenAs_of_parse {src : String} {e : Expr Position} (h : Expr.parse src = .ok e) :
    ∃ tokens last, lex src.toList = .ok (tokens ++ [last]) ∧ last.kind = .eof ∧
      e.WrittenAs tokens :=
  written_of_parseWith (.inr rfl)
    (fun ht hfaithful hread => ht.expr_writtenAs rfl hfaithful hread) h

/-- A program that was read is written as the tokens of its text. -/
lemma Program.writtenAs_of_parse {src : String} {program : Program Position}
    (h : Program.parse src = .ok program) :
    ∃ tokens last, lex src.toList = .ok (tokens ++ [last]) ∧ last.kind = .eof ∧
      Stmt.AllWrittenAs program.body tokens :=
  written_of_parseWith (.inl rfl) (fun ht hfaithful hread => ht.program_writtenAs hfaithful hread) h

/-- **Expressions are read as they are spelled.** -/
theorem Expr.spelled_of_parse {src : String} {e : Expr Position} (h : Expr.parse src = .ok e) :
    e.Spelled := by
  obtain ⟨tokens, last, -, -, hwritten⟩ := Expr.writtenAs_of_parse h
  exact hwritten.spelled

/-- **Programs are read as they are spelled.** -/
theorem Program.spelled_of_parse {src : String} {p : Program Position}
    (h : Program.parse src = .ok p) : Stmt.AllSpelled p.body := by
  obtain ⟨tokens, last, -, -, hwritten⟩ := Program.writtenAs_of_parse h
  exact hwritten.spelled

/-- **A parser accepts its grammar** if its reader needs of a derivation only that its numerals fit,
and keeps the tokens. -/
lemma parseWith_acceptsGrammar {β : Type} {p : Production} (hp : p = .program ∨ p = .expr)
    {read : Tree → Reading β} {written : β → List Token → Prop}
    (hread : ∀ t : Tree, t.IsA p → Reading.Decides (t.Fits false) (read t))
    (hwritten : ∀ {last : Position} {t : Tree} {v : β}, t.IsA p → t.Faithful last →
      read t = .ok v → written v t.leaves) :
    AcceptsGrammar p read written (parseWith p read) := by
  refine ⟨fun src => ⟨?_, ?_⟩, fun src v => parseWith_eq_ok_iff hp, ?_,
    fun src v => written_of_parseWith hp hwritten, ?_⟩
  · rintro ⟨v, hv⟩
    obtain ⟨tokens, last, t, hlex, hlast, ht, -, -, hreadt⟩ := (parseWith_eq_ok_iff hp).mp hv
    exact ⟨tokens, last, t, hlex, hlast, ht, (hread t ht.isA).exists_ok_iff.mp ⟨v, hreadt⟩⟩
  · rintro ⟨tokens, last, t, hlex, hlast, ht, hfits⟩
    obtain ⟨t', ht', hplaced⟩ := ht.isA.exists_settled hp last.pos
    obtain ⟨v, hv⟩ := (hread t' ht'.isA).exists_ok_iff.mpr (ht'.fits hfits)
    exact ⟨v, (parseWith_eq_ok_iff hp).mpr ⟨tokens, last, t', hlex, hlast,
      ⟨ht'.isA.derives, ht'.leaves.trans ht.leaves⟩, ht'.nearest, hplaced, hv⟩⟩
  · intro src tokens last hlex t t' ht hnearest hplaced ht' hnearest' hplaced'
    obtain ⟨htokens, hlast⟩ := lex_append_ok hlex
    have h := (parseTree_eq_ok_iff hp htokens hlast).mpr ⟨ht, hnearest, hplaced⟩
    rw [(parseTree_eq_ok_iff hp htokens hlast).mpr ⟨ht', hnearest', hplaced'⟩] at h
    cases h
    rfl
  · intro src e h hcause
    simp only [parseWith] at h
    split at h
    · rename_i tokens e' hlex
      cases h
      obtain ⟨rest, hrest⟩ := lex_error_cause hlex
      rw [hrest] at hcause
      cases hcause
    · rename_i tokens hlex
      split at h
      · cases h
        cases hcause
      · rename_i t ht
        split at h
        · rename_i pos cause hcause'
          cases h
          obtain ⟨ts, last, rfl, hkind, htext, hts⟩ := lex_ok hlex
          have hisA := (derivationOf_of_parseTree ht hts ⟨hkind, htext⟩).isA
          have hrange := hread t hisA
          rw [hcause'] at hrange
          exact hrange.2.not_isFallback hcause
        · cases h

/-- The floats of a text are decimal numerals, so only their size can be wrong. -/
lemma lex_decimal {cs : List Char} {tokens : List Token} (h : lex cs = .ok tokens) {t : Token}
    (ht : t ∈ tokens) (hkind : t.kind = .float) :
    ∃ d, Number.Decimal.parse? t.text.toList = some d := by
  obtain ⟨ts, last, rfl, hlast, -, hts⟩ := lex_ok h
  rcases List.mem_append.mp ht with ht | ht
  · have hword := hts t ht
    rw [Token.Lexical, hkind] at hword
    exact hword.decimal
  · rw [List.mem_singleton.mp ht, hlast] at hkind
    cases hkind

/-- **The parsers accept exactly their grammar**, where floats are always numerals, and in every
program that they accept each second branch belongs to the nearest open condition. -/
theorem parsers_accept_grammar :
    AcceptsGrammar .program readProgram (fun program => Stmt.AllWrittenAs program.body)
        Program.parse ∧
      AcceptsGrammar .expr readExpr Expr.WrittenAs Expr.parse ∧
      (∀ src tokens, lex src = .ok tokens → ∀ t ∈ tokens, t.kind = .float →
        ∃ d, Number.Decimal.parse? t.text.toList = some d) ∧
      ∀ src program, Program.parse src = .ok program → Stmt.AllNearestElse program.body := by
  refine ⟨?_, ?_, fun src tokens h t ht hkind => lex_decimal h ht hkind, ?_⟩
  · exact parseWith_acceptsGrammar (.inl rfl) (fun _ ht => ht.readsProgram)
      fun ht hfaithful hread => ht.program_writtenAs hfaithful hread
  · exact parseWith_acceptsGrammar (.inr rfl) (fun _ ht => ht.reads rfl)
      fun ht hfaithful hread => ht.expr_writtenAs rfl hfaithful hread
  · intro src program h
    obtain ⟨tokens, last, t, -, -, -, hnearest, -, hread⟩ := (parseWith_eq_ok_iff (.inl rfl)).mp h
    exact nearestElse_of_readProgram hnearest hread

/-- A second branch behind two open conditions. -/
theorem parsers_accept_grammar_twoOpen :
    ∃ program, Program.parse "if (a) if (b) \x7b\x7d else \x7b\x7d" = .ok program ∧
      program.body.map Stmt.text =
        ["Conditional(if a then Conditional(if b then Block(len=0) else Block(len=0)))"] ∧
      Stmt.AllNearestElse program.body := by
  obtain ⟨program, hparse, htext⟩ :
      ∃ program, Program.parse "if (a) if (b) \x7b\x7d else \x7b\x7d" = .ok program ∧
        program.body.map Stmt.text =
          ["Conditional(if a then Conditional(if b then Block(len=0) else Block(len=0)))"] :=
    exists_ok_of_toOption (by decide +kernel)
  exact ⟨program, hparse, htext, parsers_accept_grammar.2.2.2 _ _ hparse⟩

end Cellular
