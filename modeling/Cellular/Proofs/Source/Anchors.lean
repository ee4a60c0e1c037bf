import Cellular.Proofs.Rule.Scoping
import Cellular.Proofs.Source.Faults

/-!
# Nodes stand at their tokens

What is read from a text keeps places, and they say where it came from: every node stands at a token
of its own part of the text, an operator at its sign and all else at its first token.

* `Expr.OwnText` are the tokens of an expression without parentheses around it, and `Expr.Anchor`
  is the token among them that it stands at.
* `Among` says that something is written in a row among tokens; `Expr.WrittenAs.parts` and
  `Stmt.AllWrittenAs.occurs` find every node among the tokens of the whole.
* `Expr.PointsInto` and `Stmt.PointsInto` say of a node that it stands at its token.
* `parse_points`: so do all nodes of what is read, and what is not read is refused at a token.

The text of an operand may have parentheses around it, any number of them, and the place of a node
is never that of a parenthesis.  Its own text is what is left without them.  `Expr.OwnText` says so
without a procedure: the tokens are those of the expression, and no outer pair can be taken away.
An operator between two operands stands at its sign, which is not the first token of its text, so
that the anchor depends on the form of the expression.

Nodes are found from the outside in.  What is written as tokens has parts that are written as some
of these tokens in a row, and a part of a part is so as well.
-/

namespace Cellular

/-! ## Tokens in a row

The tokens of a part are some tokens in a row of the whole.  That much is transitive, and is enough
to carry a place outwards.
-/

/-- Some tokens in a row among `ts` are such as `written` says. -/
def Among (written : List Token → Prop) (ts : List Token) : Prop := ∃ us, us <:+: ts ∧ written us

namespace Among

variable {written : List Token → Prop} {us ts : List Token}

lemma self (h : written ts) : Among written ts := ⟨ts, List.infix_refl ts, h⟩

lemma mono (h : Among written us) (hus : us <:+: ts) : Among written ts := by
  obtain ⟨vs, hvs, hwritten⟩ := h
  exact ⟨vs, hvs.trans hus, hwritten⟩

end Among

/-! ## Own texts

The induction takes one pair of parentheses after the other away.
-/

/-- The expression `e` is written as `own`, with no parentheses around it. -/
structure Expr.OwnText (e : Expr Position) (own : List Token) : Prop where
  written : e.WrittenAs own
  bare : ∀ (opening closing : Token) (inner : List Token), own = opening :: (inner ++ [closing]) →
    opening.text = "(" → closing.text = ")" → ¬ e.WrittenAs inner

/-- The token `t` of the own text `own` that an expression stands at: the sign of an operator
between two operands, and of all else the first token. -/
def Expr.Anchor : Expr Position → List Token → Token → Prop
  | .binary _ op left right, own, t => ∃ us vs, own = us ++ t :: vs ∧ left.WrittenAs us ∧
      t.text = op.symbol ∧ right.WrittenAs vs
  | _, own, t => own.head? = some t

/-- Parentheses around an expression can be taken away until none are left. -/
lemma Expr.WrittenAs.ownText {e : Expr Position} {ts : List Token} (h : e.WrittenAs ts) :
    Among e.OwnText ts := by
  by_cases henclosed : ∃ (opening closing : Token) (inner : List Token),
    ts = opening :: (inner ++ [closing]) ∧ opening.text = "(" ∧ closing.text = ")" ∧
      e.WrittenAs inner
  · obtain ⟨opening, closing, inner, hts, -, -, hinner⟩ := henclosed
    exact hinner.ownText.mono ⟨[opening], [closing], hts.symm⟩
  · refine .self ⟨h, ?_⟩
    rintro opening closing inner hts hopening hclosing hinner
    exact henclosed ⟨opening, closing, inner, hts, hopening, hclosing, hinner⟩
termination_by ts.length
decreasing_by
  rw [hts, List.length_cons, List.length_append]
  omega

/-- **An expression stands at its anchor.** -/
lemma Expr.OwnText.exists_anchor {e : Expr Position} {own : List Token} (h : e.OwnText own) :
    ∃ t, e.Anchor own t ∧ e.note = t.pos := by
  obtain ⟨hwritten, hbare⟩ := h
  cases hwritten with
  | @ternary test yes no pos asks parts ts us vs htest _ _ _ _ hpos =>
      obtain ⟨t, ts, rfl⟩ := List.exists_cons_of_ne_nil htest.ne_nil
      exact ⟨t, rfl, (Option.some.inj hpos).symm⟩
  | @binary left right op sign ts us hleft _ hsign hright =>
      exact ⟨sign, ⟨ts, us, rfl, hleft, hsign, hright⟩, rfl⟩
  | @access path pos ts hpath =>
      cases hpath
      exact ⟨_, rfl, rfl⟩
  | parens hopening he hclosing => exact absurd he (hbare _ _ _ rfl hopening hclosing)
  | _ => exact ⟨_, rfl, rfl⟩

/-- The expression stands at its anchor among the tokens `ts`. -/
def Expr.PointsInto (ts : List Token) (e : Expr Position) : Prop :=
  ∃ own t, own <:+: ts ∧ e.OwnText own ∧ e.Anchor own t ∧ e.note = t.pos

/-- The statement stands at the first of its tokens among `ts`. -/
def Stmt.PointsInto (ts : List Token) (s : Stmt Position) : Prop :=
  ∃ own t, own <:+: ts ∧ s.WrittenAs own ∧ own.head? = some t ∧ s.note = t.pos

/-- What is written among tokens has an own text there, and stands at its anchor. -/
lemma Expr.pointsInto_of_among {e : Expr Position} {ts : List Token} (h : Among e.WrittenAs ts) :
    e.PointsInto ts := by
  obtain ⟨us, hus, hwritten⟩ := h
  obtain ⟨own, hown, hownText⟩ := hwritten.ownText
  obtain ⟨t, hanchor, hpos⟩ := hownText.exists_anchor
  exact ⟨own, t, hown.trans hus, hownText, hanchor, hpos⟩

/-- A statement stands at its first token. -/
lemma Stmt.pointsInto_of_among {s : Stmt Position} {ts : List Token} (h : Among s.WrittenAs ts) :
    s.PointsInto ts := by
  obtain ⟨us, hus, hwritten⟩ := h
  have hfirst : ∃ t, us.head? = some t ∧ s.note = t.pos := by
    cases hwritten with
    | assign htarget =>
        cases htarget
        exact ⟨_, rfl, rfl⟩
    | _ => exact ⟨_, rfl, rfl⟩
  obtain ⟨t, ht, hpos⟩ := hfirst
  exact ⟨us, t, hus, hwritten, ht, hpos⟩

/-! ## Nodes

`Expr.parts` and `Stmt.nodes` list all nodes.  Each case of the relation between a tree and its
tokens shows where the tokens of the children are.
-/

/-- **All nodes of an expression are written among its tokens.** -/
lemma Expr.WrittenAs.parts {e : Expr Position} {ts : List Token} (h : e.WrittenAs ts) :
    ∀ n ∈ e.parts, Among n.WrittenAs ts := by
  induction h with
  | @ternary test yes no pos asks parts ts us vs htest hasks hyes hparts hno hpos ihtest ihyes
      ihno =>
      have hwhole := Among.self (Expr.WrittenAs.ternary htest hasks hyes hparts hno hpos)
      simp only [Expr.parts, List.forall_mem_cons, List.forall_mem_append]
      refine ⟨hwhole, fun n hn => (ihtest n hn).mono ?_, fun n hn => (ihyes n hn).mono ?_,
        fun n hn => (ihno n hn).mono ?_⟩
      · exact ⟨[], asks :: (us ++ parts :: vs), by simp⟩
      · exact ⟨ts ++ [asks], parts :: vs, by simp⟩
      · exact ⟨ts ++ asks :: us ++ [parts], [], by simp⟩
  | @binary left right op sign ts us hleft hop hsign hright ihleft ihright =>
      have hwhole := Among.self (Expr.WrittenAs.binary hleft hop hsign hright)
      simp only [Expr.parts, List.forall_mem_cons, List.forall_mem_append]
      refine ⟨hwhole, fun n hn => (ihleft n hn).mono ?_, fun n hn => (ihright n hn).mono ?_⟩
      · exact ⟨[], sign :: us, by simp⟩
      · exact ⟨ts ++ [sign], [], by simp⟩
  | @unary operand op sign ts hop hsign hoperand ih =>
      have hwhole := Among.self (Expr.WrittenAs.unary hop hsign hoperand)
      simp only [Expr.parts, List.forall_mem_cons]
      exact ⟨hwhole, fun n hn => (ih n hn).mono ⟨[sign], [], by simp⟩⟩
  | @cast operand target name opening closing ts htarget hname hopening hoperand hclosing ih =>
      have hwhole := Among.self (Expr.WrittenAs.cast htarget hname hopening hoperand hclosing)
      simp only [Expr.parts, List.forall_mem_cons]
      exact ⟨hwhole, fun n hn => (ih n hn).mono ⟨[name, opening], [closing], by simp⟩⟩
  | int hkind hfits => simpa [Expr.parts] using Among.self (Expr.WrittenAs.int hkind hfits)
  | leastInt hsign hkind hvalue =>
      simpa [Expr.parts] using Among.self (Expr.WrittenAs.leastInt hsign hkind hvalue)
  | float hkind hd hfinite =>
      simpa [Expr.parts] using Among.self (Expr.WrittenAs.float hkind hd hfinite)
  | bool htext => simpa [Expr.parts] using Among.self (Expr.WrittenAs.bool htext)
  | access hpath => simpa [Expr.parts] using Among.self (Expr.WrittenAs.access hpath)
  | @parens e opening closing ts _ _ _ ih =>
      exact fun n hn => (ih n hn).mono ⟨[opening], [closing], rfl⟩

/-- **All nodes of the expressions of a statement are written among its tokens**, the target of an
assignment included. -/
lemma Stmt.WrittenAs.nodes {s : Stmt Position} {ts : List Token} (h : s.WrittenAs ts) :
    ∀ n ∈ s.nodes, Among n.WrittenAs ts := by
  have hexprs : ∀ e ∈ s.exprs, Among e.WrittenAs ts := by
    cases h with
    | block | declare => simp [Stmt.exprs]
    | @initialise target init type name sign closing ts _ _ _ _ hinit _ =>
        simp only [Stmt.exprs, Option.toList_some, List.forall_mem_singleton]
        exact ⟨ts, ⟨[type, name, sign], [closing], by simp⟩, hinit⟩
    | @assign target op value pos sign closing ts us htarget _ _ hvalue _ =>
        simp only [Stmt.exprs, List.forall_mem_cons]
        exact ⟨⟨ts, ⟨[], sign :: (us ++ [closing]), by simp⟩, .access htarget⟩,
          ⟨us, ⟨ts ++ [sign], [closing], by simp⟩, hvalue⟩, by simp⟩
    | @when test body word opening closing ts us _ _ htest _ _ =>
        simp only [Stmt.exprs, List.forall_mem_singleton]
        exact ⟨ts, ⟨[word, opening], closing :: us, by simp⟩, htest⟩
    | @branch test yes no word opening closing other ts us vs _ _ htest _ _ _ _ =>
        simp only [Stmt.exprs, List.forall_mem_singleton]
        exact ⟨ts, ⟨[word, opening], closing :: (us ++ other :: vs), by simp⟩, htest⟩
  intro n hn
  obtain ⟨e, he, hn⟩ := List.mem_flatMap.mp hn
  obtain ⟨us, hus, hwritten⟩ := hexprs e he
  exact (hwritten.parts n hn).mono hus

lemma Stmt.nodes_among {s : Stmt Position} {ts : List Token} (h : Among s.WrittenAs ts) :
    ∀ n ∈ s.nodes, Among n.WrittenAs ts := by
  obtain ⟨us, hus, hwritten⟩ := h
  exact fun n hn => (hwritten.nodes n hn).mono hus

lemma Stmt.WrittenAs.all {s : Stmt Position} {ts : List Token} (h : s.WrittenAs ts) :
    Stmt.AllWrittenAs [s] ts := by
  simpa using Stmt.AllWrittenAs.cons h .nil

/-- A statement between others is written among their tokens. -/
lemma Stmt.AllWrittenAs.among {s : Stmt Position} {back : List (Stmt Position)} :
    ∀ {front : List (Stmt Position)} {ts : List Token},
      Stmt.AllWrittenAs (front ++ s :: back) ts → Among s.WrittenAs ts
  | [], _, .cons hs _ => ⟨_, List.infix_append [] _ _, hs⟩
  | _ :: _, _, .cons _ hss => hss.among.mono (List.suffix_append _ _).isInfix

/-- **A statement is written where it occurs.**  One step goes into one statement, whose tokens hold
those of what is inside it. -/
lemma Stmt.AllWrittenAs.occurs {body before : List (Stmt Position)} {s : Stmt Position}
    (hs : Stmt.Occurs body before s) :
    ∀ {ts : List Token}, Stmt.AllWrittenAs body ts → Among s.WrittenAs ts := by
  induction hs with
  | here =>
      intro ts h
      exact h.among
  | block _ ih =>
      intro ts h
      obtain ⟨us, hus, hwhole⟩ := h.among
      cases hwhole with
      | @block _ opening closing vs _ hbody _ =>
          exact (ih hbody).mono (.trans ⟨[opening], [closing], rfl⟩ hus)
  | when _ ih =>
      intro ts h
      obtain ⟨us, hus, hwhole⟩ := h.among
      cases hwhole with
      | @when _ _ word opening closing vs ws _ _ _ _ hbody =>
          exact (ih hbody.all).mono
            (.trans ⟨word :: opening :: (vs ++ [closing]), [], by simp⟩ hus)
  | yes _ ih =>
      intro ts h
      obtain ⟨us, hus, hwhole⟩ := h.among
      cases hwhole with
      | @branch _ _ _ word opening closing other vs ws xs _ _ _ _ hyes _ _ =>
          exact (ih hyes.all).mono
            (.trans ⟨word :: opening :: (vs ++ [closing]), other :: xs, by simp⟩ hus)
  | no _ ih =>
      intro ts h
      obtain ⟨us, hus, hwhole⟩ := h.among
      cases hwhole with
      | @branch _ _ _ word opening closing other vs ws xs _ _ _ _ _ _ hno =>
          exact (ih hno.all).mono
            (.trans ⟨word :: opening :: (vs ++ closing :: ws ++ [other]), [], by simp⟩ hus)

/-! ## Whole texts

What a text is refused for is treated in the module on errors; here both halves are put together.
-/

/-- The tokens of a text that splits, without the mark of its end. -/
def Significant (src : List Char) (ts : List Token) : Prop :=
  ∃ last, lex src = .ok (ts ++ [last]) ∧ last.kind = .eof ∧ ∀ t ∈ ts, t.kind ≠ .eof

lemma significant_of_lex {src : List Char} {ts : List Token} {last : Token}
    (h : lex src = .ok (ts ++ [last])) : Significant src ts := by
  obtain ⟨hlexical, hkind, -⟩ := lex_append_ok h
  exact ⟨last, h, hkind, fun t ht => (hlexical t ht).ne_eof⟩

/-- **Places point at tokens.**  What is read from a text keeps for every statement and every
expression the place of a token of the text that is not its end: for an operator between two
operands that of its sign, and for all else that of the first token of its own text, without
parentheses around it.  A text that is refused has its error at a token, the end included, or where
it does not split, and the error shows the line of that place. -/
theorem parse_points (src : String) :
    (match Program.parse src with
      | .ok program => ∃ ts, Significant src.toList ts ∧
        ∀ before s, Stmt.Occurs program.body before s →
          s.PointsInto ts ∧ ∀ e ∈ s.nodes, e.PointsInto ts
      | .error e => e.PointsInto src.toList) ∧
    match Expr.parse src with
    | .ok e => ∃ ts, Significant src.toList ts ∧ ∀ n ∈ e.parts, n.PointsInto ts
    | .error e => e.PointsInto src.toList := by
  constructor
  · cases hparse : Program.parse src with
    | error e => exact parseWith_error (.inl rfl) (fun _ => readProgram_failsAt) hparse
    | ok program =>
        obtain ⟨ts, last, hlex, -, hwritten⟩ := Program.writtenAs_of_parse hparse
        refine ⟨ts, significant_of_lex hlex, fun before s hs => ?_⟩
        have hamong := hwritten.occurs hs
        exact ⟨Stmt.pointsInto_of_among hamong,
          fun e he => Expr.pointsInto_of_among (Stmt.nodes_among hamong e he)⟩
  · cases hparse : Expr.parse src with
    | error e => exact parseWith_error (.inr rfl) (fun _ => failsAt_of_readExpr.1) hparse
    | ok e =>
        obtain ⟨ts, last, hlex, -, hwritten⟩ := Expr.writtenAs_of_parse hparse
        exact ⟨ts, significant_of_lex hlex,
          fun n hn => Expr.pointsInto_of_among (hwritten.parts n hn)⟩

/-- The product stands at its sign, the sum at its own, inside the parentheses. -/
example : (Expr.parse "// é\n(a + b) * c").toOption.map (fun e => e.parts.map (·.note.offset))
    = some [14, 9, 7, 11, 16] := by
  decide +kernel

/-- Comments and characters of several bytes move offsets, not lines and columns. -/
example : (match Program.parse "/* é */\n\nx = 1 +;\r\n" with
    | .error e => (e.pos, e.line)
    | .ok _ => default) = (⟨16, 3, 7⟩, "x = 1 +;") := by
  decide +kernel

end Cellular
