import Cellular.Proofs.Source.Places

/-!
# Layout decides nothing

The texts of the tokens of a rule with single blanks between them are the same rule again: blanks,
line breaks and comments between tokens, or their absence, change nothing but places.

* `joined` writes the texts of tokens with single blanks between them.
* `exists_splits_joined`: every word ends at a blank, so that what is written is split into the same
  words, whatever stood between them before.
* `layout_irrelevant`: a text that splits and its tokens, written so, have the same tokens and the
  same readings, places aside.

Two texts are compared by way of their tokens.  For the lexer it has to be shown that a single blank
ends every word: whatever rule takes the word would go on only with a character that is part of it,
and a blank is part of no word.  The rest is known, as the stages behind the lexer do not look at
places.  Nothing is said of errors.  They have places, and these do change.
-/

namespace Cellular

/-- The texts of the tokens before the end, with single blanks between them. -/
def joined (tokens : List Token) : String :=
  " ".intercalate ((tokens.filter (·.kind ≠ .eof)).map Token.text)

/-- What the grammar sees of tokens is what is left of them without places. -/
lemma map_unplaced_eq_iff {tokens tokens' : List Token} :
    tokens'.map Token.unplaced = tokens.map Token.unplaced ↔
      tokens'.map (fun t => (t.kind, t.text)) = tokens.map fun t => (t.kind, t.text) := by
  have hseen : (fun t : Token => (t.kind, t.text)) = (fun t => (t.kind, t.text)) ∘ Token.unplaced :=
    rfl
  have hunplaced : Token.unplaced = (fun s => ⟨s.1, s.2, {}⟩) ∘ fun t : Token => (t.kind, t.text) :=
    rfl
  constructor
  · intro h
    rw [hseen, ← List.map_map, ← List.map_map, h]
  · intro h
    rw [hunplaced, ← List.map_map, ← List.map_map, h]

/-! ## Words with blanks between them -/

/-- **Words with single blanks between them are split into themselves**: a blank ends every word. -/
lemma exists_splits_words {t : Token} {ts : List Token} (h : ∀ u ∈ t :: ts, u.Lexical)
    (pos : Position) :
    ∃ us : List Token, us.map Token.unplaced = (t :: ts).map Token.unplaced ∧
      Splits (t.text.toList ++ ts.flatMap fun u => ' ' :: u.text.toList) pos us [] := by
  obtain ⟨ht, hts⟩ := List.forall_mem_cons.mp h
  induction ts generalizing t pos with
  | nil =>
      refine ⟨[⟨t.kind, t.text, pos⟩], rfl, ?_⟩
      simpa using Splits.word ht (Behind.nil.apart _ _) pos
  | cons u ts ih =>
      obtain ⟨us, hsame, hsplits⟩ := ih hts ((pos.afterAll t.text.toList).after ' ')
        (List.forall_mem_cons.mp hts).1 (List.forall_mem_cons.mp hts).2
      refine ⟨⟨t.kind, t.text, pos⟩ :: us, ?_, ?_⟩
      · rw [List.map_cons, hsame]
        rfl
      · simpa using (Splits.word ht ((Behind.blank _).apart _ _) pos).append
          ((Splits.blank _).append hsplits)

lemma exists_splits_joined {ts : List Token} (h : ∀ t ∈ ts, t.Lexical) (pos : Position) :
    ∃ us : List Token, us.map Token.unplaced = ts.map Token.unplaced ∧
      Splits (" ".intercalate (ts.map Token.text)).toList pos us [] := by
  cases ts with
  | nil => exact ⟨[], rfl, .nil⟩
  | cons t ts =>
      have htext : (" ".intercalate ((t :: ts).map Token.text)).toList
          = t.text.toList ++ ts.flatMap fun u => ' ' :: u.text.toList := by
        rw [List.map_cons, toList_intercalate, List.flatMap_map]
        rfl
      rw [htext]
      exact exists_splits_words h pos

/-! ## Whole texts -/

/-- The tokens of a text that splits, written with single blanks between them, are its tokens again
at other places. -/
lemma lex_joined {src : String} {tokens : List Token} (h : lex src.toList = .ok tokens) :
    ∃ tokens', lex (joined tokens).toList = .ok tokens' ∧
      tokens'.map Token.unplaced = tokens.map Token.unplaced := by
  obtain ⟨ts, last, rfl, hkind, htext, hts⟩ := lex_ok h
  have hwords : (ts ++ [last]).filter (·.kind ≠ .eof) = ts := by
    rw [List.filter_append, List.filter_eq_self.mpr fun t ht => by simpa using (hts t ht).ne_eof]
    simp [hkind]
  obtain ⟨us, hsame, hsplits⟩ := exists_splits_joined hts .start
  rw [joined, hwords]
  refine ⟨_, hsplits.lex_eq, ?_⟩
  rw [List.map_append, List.map_append, hsame]
  simp [Token.unplaced, hkind, htext]

/-- **Layout decides nothing.**  A text that splits and the texts of its tokens with single blanks
between them have the same kinds and texts of tokens.  So the one is a program or an expression if
and only if the other is, and the same one, places aside. -/
theorem layout_irrelevant (src : String) (tokens : List Token) (h : lex src.toList = .ok tokens) :
    (∃ tokens', lex (joined tokens).toList = .ok tokens' ∧
      tokens'.map (fun t => (t.kind, t.text)) = tokens.map fun t => (t.kind, t.text)) ∧
    (Program.parse (joined tokens)).toOption.map (fun p => Stmt.allBare p.body)
      = (Program.parse src).toOption.map (fun p => Stmt.allBare p.body) ∧
    (Expr.parse (joined tokens)).toOption.map Expr.bare
      = (Expr.parse src).toOption.map Expr.bare := by
  obtain ⟨tokens', hlex', hsame⟩ := lex_joined h
  exact ⟨⟨tokens', hlex', map_unplaced_eq_iff.mp hsame⟩, Program.parse_alike h hlex' hsame,
    Expr.parse_alike h hlex' hsame⟩

set_option maxRecDepth 100000 in
/-- Comments, a line break, and words of all kinds without blanks between them. -/
theorem layout_irrelevant_packed :
    ∃ p p', Program.parse "if(n>=2)out/**/=.5e1;//five\nelse\x7bout=-n;\x7d" = .ok p ∧
      Program.parse "if ( n >= 2 ) out = .5e1 ; else \x7b out = - n ; \x7d" = .ok p' ∧
      Stmt.allBare p'.body = Stmt.allBare p.body := by
  obtain ⟨tokens, hlex, hjoined⟩ :
      ∃ tokens, lex "if(n>=2)out/**/=.5e1;//five\nelse\x7bout=-n;\x7d".toList = .ok tokens ∧
        joined tokens = "if ( n >= 2 ) out = .5e1 ; else \x7b out = - n ; \x7d" :=
    exists_ok_of_toOption (by decide +kernel)
  obtain ⟨p, hparse, -⟩ :
      ∃ p, Program.parse "if(n>=2)out/**/=.5e1;//five\nelse\x7bout=-n;\x7d" = .ok p ∧ () = () :=
    exists_ok_of_toOption (by decide +kernel)
  have halike := (layout_irrelevant _ tokens hlex).2.1
  rw [hjoined, hparse] at halike
  obtain ⟨p', hparse', hbare⟩ := exists_ok_of_toOption halike
  exact ⟨p, p', hparse, hparse', hbare⟩

end Cellular
