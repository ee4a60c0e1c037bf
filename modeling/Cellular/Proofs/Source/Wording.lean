import Cellular.Proofs.Source.Parsing

/-!
# Names and floats of a rule

A rule keeps the names of its variables and the texts of its floats.  In what is read from a text
both are words of the language, so they can stand in other texts as they are.

* `Expr.Worded` and `Stmt.Worded` state this for every node of a tree; notes play no role
  (`Expr.worded_map`, `Stmt.worded_map`).
* `Expr.worded_of_parse` and `Program.worded_of_parse`: it holds of what is read.

This is about texts inside a rule, not about the text that it was read from.  A shader prints names
and floats of its rule as they are, so whether the shader is well-formed depends on them.  A name
consists of name characters, and a float has a point or an exponent, as the shading language asks of
a float.
-/

namespace Cellular

/-- Every float is written as one. -/
def Expr.Worded {α : Type} : Expr α → Prop
  | .ternary _ test yes no => test.Worded ∧ yes.Worded ∧ no.Worded
  | .binary _ _ left right => left.Worded ∧ right.Worded
  | .unary _ _ operand => operand.Worded
  | .cast _ _ operand => operand.Worded
  | .float _ _ text => Word .float text.toList
  | .int .. | .bool .. | .access .. => True

mutual

/-- Every variable that the statement declares has a name, and its floats are written as such. -/
def Stmt.Worded {α : Type} : Stmt α → Prop
  | .block _ body => Stmt.AllWorded body
  | .declare _ _ name init => Word .ident name.toList ∧ ∀ e, init = some e → e.Worded
  | .assign _ _ _ _ value => value.Worded
  | .when _ test body => test.Worded ∧ Stmt.Worded body
  | .branch _ test yes no => test.Worded ∧ Stmt.Worded yes ∧ Stmt.Worded no

/-- The same for statements in turn. -/
def Stmt.AllWorded {α : Type} : List (Stmt α) → Prop
  | [] => True
  | s :: ss => Stmt.Worded s ∧ Stmt.AllWorded ss

end

/-! ## Notes -/

/-- Other notes leave the words as they are. -/
lemma Expr.worded_map {α β : Type} (f : α → β) (e : Expr α) : (e.map f).Worded ↔ e.Worded := by
  induction e with
  | ternary n t a b iht iha ihb => simp only [Expr.map, Expr.Worded, iht, iha, ihb]
  | binary n op l r ihl ihr => simp only [Expr.map, Expr.Worded, ihl, ihr]
  | unary n op e ih => simp only [Expr.map, Expr.Worded, ih]
  | cast n target e ih => simp only [Expr.map, Expr.Worded, ih]
  | int n v text => rfl
  | float n v text => rfl
  | bool n v => rfl
  | access n p => rfl

mutual

/-- What a statement is annotated with has no part in the words of it. -/
theorem Stmt.worded_map {α β : Type} (f : α → β) :
    ∀ s : Stmt α, (Stmt.map f s).Worded ↔ s.Worded
  | .block _ body => by
      simp only [Stmt.map, Stmt.Worded]
      exact Stmt.allWorded_mapAll f body
  | .declare _ _ _ none => by simp [Stmt.map, Stmt.Worded]
  | .declare _ _ _ (some e) => by simp [Stmt.map, Stmt.Worded, Expr.worded_map]
  | .assign _ _ _ _ value => by simp only [Stmt.map, Stmt.Worded, Expr.worded_map]
  | .when _ test body => by
      simp only [Stmt.map, Stmt.Worded, Expr.worded_map, Stmt.worded_map f body]
  | .branch _ test yes no => by
      simp only [Stmt.map, Stmt.Worded, Expr.worded_map, Stmt.worded_map f yes,
        Stmt.worded_map f no]

/-- The same for statements in turn. -/
theorem Stmt.allWorded_mapAll {α β : Type} (f : α → β) :
    ∀ ss : List (Stmt α), Stmt.AllWorded (Stmt.mapAll f ss) ↔ Stmt.AllWorded ss
  | [] => by simp only [Stmt.mapAll, Stmt.AllWorded]
  | s :: ss => by
      simp only [Stmt.mapAll, Stmt.AllWorded, Stmt.worded_map f s, Stmt.allWorded_mapAll f ss]

end

/-! ## What is read -/

/-- The words of an expression are those of its tokens. -/
lemma Expr.WrittenAs.worded {e : Expr Position} {ts : List Token} (h : e.WrittenAs ts)
    (hlexical : ∀ t ∈ ts, t.Lexical) : e.Worded := by
  induction h with
  | ternary _ _ _ _ _ _ ihtest ihyes ihno =>
      simp only [List.forall_mem_append, List.forall_mem_cons] at hlexical
      obtain ⟨htest, -, hyes, -, hno⟩ := hlexical
      exact ⟨ihtest htest, ihyes hyes, ihno hno⟩
  | binary _ _ _ _ ihleft ihright =>
      simp only [List.forall_mem_append, List.forall_mem_cons] at hlexical
      obtain ⟨hleft, -, hright⟩ := hlexical
      exact ⟨ihleft hleft, ihright hright⟩
  | unary _ _ _ ih => exact ih (List.forall_mem_cons.mp hlexical).2
  | cast _ _ _ _ _ ih =>
      simp only [List.forall_mem_append, List.forall_mem_cons] at hlexical
      exact ih hlexical.2.2.1
  | @float t _ hkind _ _ =>
      have hword : t.Lexical := hlexical t List.mem_cons_self
      rwa [Token.Lexical, hkind] at hword
  | parens _ _ _ ih =>
      simp only [List.forall_mem_append, List.forall_mem_cons] at hlexical
      exact ih hlexical.2.1
  | int | leastInt | bool | access => trivial

mutual

/-- **What is written in words of the lexer has words for names**, and decimals for floats. -/
theorem Stmt.WrittenAs.worded {s : Stmt Position} {ts : List Token} :
    Stmt.WrittenAs s ts → (∀ t ∈ ts, t.Lexical) → s.Worded
  | .block _ hbody _, hlexical => by
      simp only [List.forall_mem_append, List.forall_mem_cons] at hlexical
      rw [Stmt.Worded]
      exact hbody.worded hlexical.2.1
  | .declare _ _ hname _, hlexical => by
      simp only [List.forall_mem_cons] at hlexical
      obtain ⟨-, hword, -⟩ := hlexical
      rw [Token.Lexical, hname] at hword
      simpa [Stmt.Worded] using hword
  | .initialise _ _ hname _ hinit _, hlexical => by
      simp only [List.forall_mem_append, List.forall_mem_cons] at hlexical
      obtain ⟨-, hword, -, hts, -⟩ := hlexical
      rw [Token.Lexical, hname] at hword
      simpa [Stmt.Worded] using And.intro hword (hinit.worded hts)
  | .assign _ _ _ hvalue _, hlexical => by
      simp only [List.forall_mem_append, List.forall_mem_cons] at hlexical
      rw [Stmt.Worded]
      exact hvalue.worded hlexical.2.2.1
  | .when _ _ htest _ hbody, hlexical => by
      simp only [List.forall_mem_append, List.forall_mem_cons] at hlexical
      obtain ⟨-, -, hts, -, hus⟩ := hlexical
      rw [Stmt.Worded]
      exact ⟨htest.worded hts, hbody.worded hus⟩
  | .branch _ _ htest _ hyes _ hno, hlexical => by
      simp only [List.forall_mem_append, List.forall_mem_cons] at hlexical
      obtain ⟨-, -, hts, -, hus, -, hvs⟩ := hlexical
      rw [Stmt.Worded]
      exact ⟨htest.worded hts, hyes.worded hus, hno.worded hvs⟩

/-- The same for statements in turn. -/
theorem Stmt.AllWrittenAs.worded {ss : List (Stmt Position)} {ts : List Token} :
    Stmt.AllWrittenAs ss ts → (∀ t ∈ ts, t.Lexical) → Stmt.AllWorded ss
  | .nil, _ => by
      rw [Stmt.AllWorded]
      trivial
  | .cons hs hss, hlexical => by
      rw [List.forall_mem_append] at hlexical
      rw [Stmt.AllWorded]
      exact ⟨hs.worded hlexical.1, hss.worded hlexical.2⟩

end

/-- **The floats of an expression that was read are words.** -/
theorem Expr.worded_of_parse {src : String} {e : Expr Position} (h : Expr.parse src = .ok e) :
    e.Worded := by
  obtain ⟨tokens, last, hlex, -, hwritten⟩ := Expr.writtenAs_of_parse h
  exact hwritten.worded (lex_append_ok hlex).1

/-- **The names and floats of a program that was read are words.** -/
theorem Program.worded_of_parse {src : String} {p : Program Position}
    (h : Program.parse src = .ok p) : Stmt.AllWorded p.body := by
  obtain ⟨tokens, last, hlex, -, hwritten⟩ := Program.writtenAs_of_parse h
  exact hwritten.worded (lex_append_ok hlex).1

end Cellular
