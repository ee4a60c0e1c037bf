import Cellular.Rule.Typing
import Cellular.Shader.Printer
import Mathlib.Tactic.Common

/-!
# The words of a shader

The text of a shader consists of words (names, floats, operators and comments), of marks between
them, and of blocks in braces.  What is known of the words is known of the whole text.

* `Woven words text` is this relation; `Term.words`, `Code.words`, `Function.words` and
  `Shader.words` collect the words of a tree, and `Shader.woven_text` relates them to its text.
* `Woven.level`: braces balance in a text whose words have no braces.
* `Woven.tidy`: two underscores in a row come from one of the words, unless a word starts with an
  underscore.

Reasoning about the printed text character by character would mean to follow indentation, commas and
lines.  The relation forgets all of that: between words there are marks, of which nothing matters
but that they have neither braces nor underscores, and braces come in pairs around woven text.  A
property of texts that holds of marks, and is kept by joining and by bracing, is a property of the
words.
-/

namespace Cellular

/-! ## Underscores

Two underscores can meet where two texts are joined, which is why the first and the last character
of a text come in.
-/

lemma hasDoubleUnderscore_cons (c : Char) (cs : List Char) :
    hasDoubleUnderscore (c :: cs) = (c = '_' && cs.head? = some '_' || hasDoubleUnderscore cs) := by
  rw [hasDoubleUnderscore.eq_def]
  split
  · next heq =>
      obtain ⟨rfl, rfl⟩ := List.cons.inj heq
      rfl
  · next hpair heq =>
      obtain ⟨rfl, rfl⟩ := List.cons.inj heq
      have hnot : (decide (c = '_') && decide (cs.head? = some '_')) = false := by
        rw [Bool.and_eq_false_iff]
        by_contra hboth
        simp only [decide_eq_false_iff_not, not_or, not_not] at hboth
        obtain ⟨ds, rfl⟩ := List.head?_eq_some_iff.mp hboth.2
        exact hpair ds hboth.1 rfl
      rw [hnot, Bool.false_or]
  · next heq => cases heq

/-- Two underscores in a row lie on one side of a place in a text, or around it. -/
lemma hasDoubleUnderscore_append (cs ds : List Char) :
    hasDoubleUnderscore (cs ++ ds)
      = (hasDoubleUnderscore cs || cs.getLast? = some '_' && ds.head? = some '_'
        || hasDoubleUnderscore ds) := by
  induction cs with
  | nil => rfl
  | cons c cs ih =>
      rw [List.cons_append, hasDoubleUnderscore_cons, hasDoubleUnderscore_cons, ih]
      cases cs with
      | nil => simp [hasDoubleUnderscore]
      | cons d cs => simp [Bool.or_assoc]

lemma hasDoubleUnderscore_eq_false {cs : List Char} (h : '_' ∉ cs) :
    hasDoubleUnderscore cs = false := by
  induction cs with
  | nil => rfl
  | cons c cs ih =>
      rw [List.mem_cons, not_or] at h
      rw [hasDoubleUnderscore_cons, ih h.2]
      simp [Ne.symm h.1]

namespace Shader

/-! ## Braces

A text in which braces balance can also be read at any depth, and this form is closed under joining.
-/

/-- The depth in braces behind a character; a brace that closes has to close one. -/
def braceStep (depth : Nat) (c : Char) : Option Nat :=
  if c = '\x7b' then some (depth + 1)
  else if c = '\x7d' then (if depth = 0 then none else some (depth - 1))
  else some depth

/-- Every brace that opens in a text is closed behind it, and closing braces close one. -/
def BracesBalance (text : String) : Prop := text.toList.foldlM braceStep 0 = some 0

instance (text : String) : Decidable (BracesBalance text) :=
  inferInstanceAs (Decidable (_ = _))

/-- A text behind which the depth in braces is the same as before it. -/
def Level (text : String) : Prop := ∀ depth, text.toList.foldlM braceStep depth = some depth

lemma Level.append {s t : String} (hs : Level s) (ht : Level t) : Level (s ++ t) := by
  intro depth
  rw [String.toList_append, List.foldlM_append, hs depth]
  exact ht depth

lemma Level.braced {s : String} (hs : Level s) : Level ("\x7b" ++ s ++ "\x7d") := by
  intro depth
  have hopen : "\x7b".toList.foldlM braceStep depth = some (depth + 1) := by simp [braceStep]
  have hclose : "\x7d".toList.foldlM braceStep (depth + 1) = some depth := by simp [braceStep]
  rw [String.toList_append, String.toList_append, List.foldlM_append, List.foldlM_append, hopen]
  simp only [Option.bind_eq_bind, Option.bind_some, hs (depth + 1)]
  exact hclose

lemma level_of_forall {s : String} (h : ∀ c ∈ s.toList, c ≠ '\x7b' ∧ c ≠ '\x7d') : Level s := by
  intro depth
  generalize s.toList = cs at h
  induction cs with
  | nil => rfl
  | cons c cs ih =>
      rw [List.forall_mem_cons] at h
      rw [List.foldlM_cons, braceStep, if_neg h.1.1, if_neg h.1.2]
      exact ih h.2

/-! ## Texts of words

The relation is not a function of the text: a text may be woven in several ways.  What is asked of
it holds for all of them.
-/

/-- Whether a character is neither a brace nor an underscore. -/
def isMarkChar (c : Char) : Bool := c ≠ '\x7b' && c ≠ '\x7d' && c ≠ '_'

/-- Whether a text is a mark: it has neither braces nor underscores. -/
def isMark (s : String) : Bool := s.toList.all isMarkChar

lemma ne_of_isMark {s : String} (h : isMark s = true) {c : Char} (hc : c ∈ s.toList) :
    (c ≠ '\x7b' ∧ c ≠ '\x7d') ∧ c ≠ '_' := by
  simpa [isMarkChar] using List.all_eq_true.mp h c hc

/-- `Woven words text`: the text consists of the words in this order, of marks between them, and of
parts in braces. -/
inductive Woven : List String → String → Prop where
  | mark {m : String} (h : isMark m = true) : Woven [] m
  | word (w : String) : Woven [w] w
  | append {ws vs : List String} {s t : String} (hs : Woven ws s) (ht : Woven vs t) :
      Woven (ws ++ vs) (s ++ t)
  | braced {ws : List String} {s : String} (hs : Woven ws s) : Woven ws ("\x7b" ++ s ++ "\x7d")

namespace Woven

variable {ws vs : List String} {s t : String}

lemma mark_append {m : String} (hm : isMark m = true) (hs : Woven ws s) : Woven ws (m ++ s) :=
  .append (.mark hm) hs

lemma append_mark {m : String} (hs : Woven ws s) (hm : isMark m = true) : Woven ws (s ++ m) := by
  simpa using hs.append (.mark hm)

/-- **Braces balance in a text whose words have no braces.** -/
lemma level (h : Woven ws s) (hws : ∀ w ∈ ws, ∀ c ∈ w.toList, c ≠ '\x7b' ∧ c ≠ '\x7d') :
    Level s := by
  induction h with
  | mark hm => exact level_of_forall fun c hc => (ne_of_isMark hm hc).1
  | word w => exact level_of_forall (hws w (by simp))
  | append _ _ ihs iht =>
      rw [List.forall_mem_append] at hws
      exact (ihs hws.1).append (iht hws.2)
  | braced _ ih => exact (ih hws).braced

end Woven

/-- A text does not start with an underscore, and two underscores in a row come from one of its
words. -/
structure Tidy (ws : List String) (s : String) : Prop where
  head : s.toList.head? ≠ some '_'
  double : hasDoubleUnderscore s.toList = ws.any fun w => hasDoubleUnderscore w.toList

lemma Tidy.append {ws vs : List String} {s t : String} (hs : Tidy ws s) (ht : Tidy vs t) :
    Tidy (ws ++ vs) (s ++ t) where
  head := by
    rw [String.toList_append, List.head?_append]
    cases hhead : s.toList.head? with
    | none => exact ht.head
    | some c =>
        have hne := hs.head
        rwa [hhead] at hne
  double := by
    rw [String.toList_append, hasDoubleUnderscore_append, hs.double, ht.double, List.any_append]
    simp [ht.head]

lemma tidy_of_notMem {s : String} (h : '_' ∉ s.toList) : Tidy [] s where
  head hhead := h (List.mem_of_head? hhead)
  double := hasDoubleUnderscore_eq_false h

/-- Two underscores in a row come from one of the words, when no word starts with an underscore. -/
lemma Woven.tidy {ws : List String} {s : String} (h : Woven ws s)
    (hws : ∀ w ∈ ws, w.toList.head? ≠ some '_') : Tidy ws s := by
  induction h with
  | mark hm => exact tidy_of_notMem fun hmem => (ne_of_isMark hm hmem).2 rfl
  | word w => exact ⟨hws w (by simp), by simp⟩
  | append _ _ ihs iht =>
      rw [List.forall_mem_append] at hws
      exact (ihs hws.1).append (iht hws.2)
  | braced _ ih =>
      have hopen : Tidy [] "\x7b" := tidy_of_notMem (by decide)
      have hclose : Tidy [] "\x7d" := tidy_of_notMem (by decide)
      simpa using (hopen.append (ih hws)).append hclose

/-! ## Marks

Numbers, blanks and operators are printed by functions of their own, whose characters are known.
-/

lemma isMark_append {s t : String} (hs : isMark s = true) (ht : isMark t = true) :
    isMark (s ++ t) = true := by
  simp only [isMark, String.toList_append, List.all_append, Bool.and_eq_true] at *
  exact ⟨hs, ht⟩

/-- Blanks at the start of a line. -/
lemma isMark_repeated (n : Nat) : isMark (Text.repeated n "    ") = true := by
  rw [Text.repeated]
  induction n with
  | zero => rfl
  | succ n ih =>
      rw [List.replicate_succ, String.join_cons]
      exact isMark_append (by decide) ih

/-- Digits are the characters of numbers. -/
lemma mem_toDigits {b n : Nat} {c : Char} (h : c ∈ Nat.toDigits b n) : ∃ d, c = Nat.digitChar d := by
  have hcore : ∀ (fuel n : Nat) (acc : List Char), c ∈ Nat.toDigitsCore b fuel n acc →
      c ∈ acc ∨ ∃ d, c = Nat.digitChar d := by
    intro fuel
    induction fuel with
    | zero =>
        intro n acc h
        exact .inl h
    | succ fuel ih =>
        intro n acc h
        rw [Nat.toDigitsCore] at h
        split_ifs at h with hzero
        · exact (List.mem_cons.mp h).symm.imp_right fun h => ⟨_, h⟩
        · rcases ih _ _ h with h | h
          · exact (List.mem_cons.mp h).symm.imp_right fun h => ⟨_, h⟩
          · exact .inr h
  exact (hcore _ _ _ h).resolve_left List.not_mem_nil

lemma isMark_toDigits (b n : Nat) : isMark (String.ofList (Nat.toDigits b n)) = true := by
  rw [isMark, String.toList_ofList, List.all_eq_true]
  intro c hc
  obtain ⟨d, rfl⟩ := mem_toDigits hc
  simp [isMarkChar]

lemma isMark_nat (n : Nat) : isMark (toString n) = true := by
  rw [Nat.toString_eq_repr, Nat.repr_eq_ofList_toDigits]
  exact isMark_toDigits 10 n

lemma isMark_int (n : Int) : isMark (toString n) = true := by
  cases n with
  | ofNat n => exact isMark_nat n
  | negSucc n => exact isMark_append (s := "-") (by decide) (isMark_nat (n + 1))

lemma isMark_hex (n : Nat) : isMark (Text.hex 1 n) = true := by
  rw [Text.hex, String.ofList_append]
  refine isMark_append ?_ (isMark_toDigits 16 n)
  simp [isMark, isMarkChar]

lemma GType.isMark_name (t : GType) : isMark t.name = true := by
  cases t <;> decide

/-! ## Trees

The words of a tree are collected by the same recursion by which it is printed.  Blocks are the only
braces, and are brought into the form that the relation has for them.
-/

mutual

/-- The words of an expression. -/
def Term.words : Term → List String
  | .name id => [id]
  | .int _ | .hex _ | .bool _ => []
  | .float text => [text]
  | .paren t => t.words
  | .binary op l r => l.words ++ [op.symbol] ++ r.words
  | .unary op t => op.symbol :: t.words
  | .ternary c a b => c.words ++ a.words ++ b.words
  | .call f args => f :: Term.wordsAll args
  | .component v _ => v.words
  | .member v part => v.words ++ [part]

/-- The words of several expressions. -/
def Term.wordsAll : List Term → List String
  | [] => []
  | t :: ts => t.words ++ Term.wordsAll ts

end

mutual

/-- The words of a statement. -/
def Code.words : Code → List String
  | .declare _ name init => name :: init.words
  | .assign target op value => target.words ++ [op.symbol] ++ value.words
  | .call t | .result t => t.words
  | .block body => Code.wordsAll body
  | .when test body => test.words ++ Code.wordsAll body
  | .branch test yes no => test.words ++ Code.wordsAll yes ++ Code.wordsAll no
  | .loop counter _ body => [counter, counter, counter] ++ Code.wordsAll body
  | .skip => []
  | .comment text => [text]

/-- The words of statements in turn. -/
def Code.wordsAll : List Code → List String
  | [] => []
  | c :: cs => Code.words c ++ Code.wordsAll cs

end

/-- The words of a function definition. -/
def Function.words (f : Function) : List String :=
  f.name :: f.params.map (·.name) ++ Code.wordsAll f.body

mutual

lemma Term.woven_text : ∀ t : Term, Woven t.words t.text
  | .name id => .word id
  | .int n => .mark (isMark_int n)
  | .hex n => .mark (isMark_append (by decide) (isMark_hex n))
  | .float text => .word text
  | .bool b => .mark (by cases b <;> decide)
  | .paren t => (t.woven_text.mark_append (by decide)).append_mark (by decide)
  | .binary op l r =>
      (((l.woven_text.append_mark (by decide)).append (.word op.symbol)).append_mark
        (by decide)).append r.woven_text
  | .unary op t => .append (.word op.symbol) t.woven_text
  | .ternary c a b =>
      (((c.woven_text.append_mark (by decide)).append a.woven_text).append_mark (by decide)).append
        b.woven_text
  | .call f args =>
      (((Woven.word f).append_mark (by decide)).append (Term.woven_texts args)).append_mark
        (by decide)
  | .component v i =>
      ((v.woven_text.append_mark (by decide)).append_mark (isMark_nat i)).append_mark (by decide)
  | .member v part => (v.woven_text.append_mark (by decide)).append (.word part)

lemma Term.woven_texts : ∀ ts : List Term,
    Woven (Term.wordsAll ts) (", ".intercalate (Term.texts ts))
  | [] => .mark (by decide)
  | [t] => by simpa [Term.wordsAll, Term.texts] using t.woven_text
  | t :: u :: ts => by
      have hrest := Term.woven_texts (u :: ts)
      rw [Term.texts] at hrest
      rw [Term.wordsAll, Term.texts, Term.texts, String.intercalate_cons_cons]
      exact (t.woven_text.append_mark (by decide)).append hrest

end

lemma woven_lineAt {ws : List String} {s : String} (depth : Nat) (h : Woven ws s) :
    Woven ws (lineAt depth s) :=
  (h.mark_append (isMark_repeated depth)).append_mark (by decide)

/-- Statements in braces, from the brace that opens to the one that closes. -/
def blockText (depth : Nat) (body : List Code) : String :=
  "\x7b" ++ ("\n" ++ Code.linesAll (depth + 1) body ++ Text.repeated depth "    ") ++ "\x7d"

/-- A block that starts at the end of a line. -/
lemma lineAt_block (depth : Nat) (head : String) (body : List Code) :
    lineAt depth (head ++ "\x7b") ++ Code.linesAll (depth + 1) body ++ lineAt depth "\x7d"
      = lineAt depth (head ++ blockText depth body) := by
  simp only [lineAt, blockText, String.append_assoc]

/-- Two blocks with a word between them. -/
lemma lineAt_blocks (depth : Nat) (head : String) (yes no : List Code) :
    lineAt depth (head ++ "\x7b") ++ Code.linesAll (depth + 1) yes ++ lineAt depth "\x7d else \x7b"
        ++ Code.linesAll (depth + 1) no ++ lineAt depth "\x7d"
      = lineAt depth (head ++ blockText depth yes ++ " else " ++ blockText depth no) := by
  have helse : "\x7d else \x7b" = "\x7d" ++ (" else " ++ "\x7b") := by decide
  simp only [lineAt, blockText, helse, String.append_assoc]

lemma append_openBrace (head : String) : head ++ ") \x7b" = head ++ ") " ++ "\x7b" := by
  rw [String.append_assoc]
  rfl

mutual

/-- **The text of a statement consists of its words.** -/
lemma Code.woven_lines : ∀ (depth : Nat) (c : Code), Woven c.words (c.lines depth)
  | depth, .declare type name init => by
      refine woven_lineAt depth (.append_mark ?_ (by decide))
      exact (((Woven.mark type.isMark_name).append_mark (by decide)).append (.word name)
        |>.append_mark (by decide)).append init.woven_text
  | depth, .assign target op value => by
      refine woven_lineAt depth (.append_mark ?_ (by decide))
      exact (((target.woven_text.append_mark (by decide)).append (.word op.symbol)).append_mark
        (by decide)).append value.woven_text
  | depth, .call t => woven_lineAt depth (t.woven_text.append_mark (by decide))
  | depth, .block body => by
      have htext := lineAt_block depth "" body
      rw [String.empty_append, String.empty_append] at htext
      rw [Code.lines, htext]
      exact woven_lineAt depth (Code.woven_block depth body)
  | depth, .when test body => by
      rw [Code.lines, append_openBrace, lineAt_block]
      refine woven_lineAt depth (.append (.append_mark ?_ (by decide)) (Code.woven_block depth body))
      exact test.woven_text.mark_append (by decide)
  | depth, .branch test yes no => by
      rw [Code.lines, append_openBrace, lineAt_blocks]
      refine woven_lineAt depth (.append (.append_mark (.append (.append_mark ?_ (by decide))
        (Code.woven_block depth yes)) (by decide)) (Code.woven_block depth no))
      exact test.woven_text.mark_append (by decide)
  | depth, .loop counter bound body => by
      have hend : "++) \x7b" = "++) " ++ "\x7b" := by decide
      have hzero : Woven [counter] ("for (int " ++ counter ++ " = 0; ") :=
        ((Woven.word counter).mark_append (by decide)).append_mark (by decide)
      have hbound : Woven [counter] (counter ++ " < " ++ toString bound ++ "; ") :=
        (((Woven.word counter).append_mark (by decide)).append_mark (isMark_nat bound)).append_mark
          (by decide)
      have hhead := (hzero.append hbound).append ((Woven.word counter).append_mark (m := "++) ")
        (by decide))
      rw [Code.lines, hend, ← String.append_assoc, lineAt_block]
      simpa [Code.words, String.append_assoc] using
        woven_lineAt depth (hhead.append (Code.woven_block depth body))
  | depth, .skip => woven_lineAt depth (.mark (by decide))
  | depth, .result t =>
      woven_lineAt depth ((t.woven_text.mark_append (by decide)).append_mark (by decide))
  | depth, .comment text => woven_lineAt depth ((Woven.word text).mark_append (by decide))

lemma Code.woven_block : ∀ (depth : Nat) (body : List Code),
    Woven (Code.wordsAll body) (blockText depth body)
  | depth, body => by
      have hlines := Code.woven_linesAll (depth + 1) body
      exact .braced ((hlines.mark_append (by decide)).append_mark (isMark_repeated depth))

lemma Code.woven_linesAll : ∀ (depth : Nat) (cs : List Code),
    Woven (Code.wordsAll cs) (Code.linesAll depth cs)
  | depth, [] => .mark rfl
  | depth, c :: cs => .append (Code.woven_lines depth c) (Code.woven_linesAll depth cs)

end

/-! ## Shaders -/

/-- Texts one behind the other. -/
lemma woven_join {α : Type} {words : α → List String} {text : α → String}
    (h : ∀ x, Woven (words x) (text x)) :
    ∀ xs : List α, Woven (xs.flatMap words) (String.join (xs.map text))
  | [] => .mark rfl
  | x :: xs => by
      rw [List.flatMap_cons, List.map_cons, String.join_cons]
      exact (h x).append (woven_join h xs)

/-- Texts with commas between them. -/
lemma woven_intercalate {α : Type} {words : α → List String} {text : α → String}
    (h : ∀ x, Woven (words x) (text x)) :
    ∀ xs : List α, Woven (xs.flatMap words) (", ".intercalate (xs.map text))
  | [] => .mark rfl
  | [x] => by simpa using h x
  | x :: y :: xs => by
      have hrest := woven_intercalate h (y :: xs)
      rw [List.map_cons] at hrest
      rw [List.flatMap_cons, List.map_cons, List.map_cons, String.intercalate_cons_cons]
      exact ((h x).append_mark (by decide)).append hrest

lemma Param.woven_text (p : Param) : Woven [p.name] p.text := by
  obtain ⟨passing, type, name⟩ := p
  have hbehind : ∀ {m : String}, isMark m = true → Woven [name] (m ++ type.name ++ " " ++ name) :=
    fun hm => (((Woven.mark hm).append_mark type.isMark_name).append_mark (by decide)).append
      (.word name)
  cases passing with
  | plain => exact hbehind (m := "") (by decide)
  | input => exact hbehind (m := "in ") (by decide)
  | inputOutput => exact hbehind (m := "inout ") (by decide)

lemma Function.woven_text (f : Function) : Woven f.words f.text := by
  have hparams := woven_intercalate Param.woven_text f.params
  rw [← List.map_eq_flatMap] at hparams
  have hname := ((((Woven.mark f.type.isMark_name).append_mark (m := " ") (by decide)).append
    (.word f.name)).append_mark (m := "(") (by decide)).append hparams
  have hall := woven_lineAt 0 ((hname.append_mark (m := ") ") (by decide)).append
    (Code.woven_block 0 f.body))
  rw [Function.text, append_openBrace, lineAt_block]
  simpa [Function.words] using hall

lemma Global.woven_text {word : String} (hword : isMark word = true) (v : Global) :
    Woven [v.name] (v.text word) := by
  refine woven_lineAt 0 (.append_mark ?_ (by decide))
  exact (((Woven.mark hword).append_mark v.type.isMark_name).append_mark (by decide)).append
    (.word v.name)

end Shader

/-- The words of a shader. -/
def Shader.words (s : Shader) : List String :=
  (s.uniforms ++ s.outputs ++ s.globals).map (·.name) ++ s.functions.flatMap Function.words

namespace Shader

/-- **The text of a shader consists of its words**, of marks, and of blocks in braces. -/
theorem woven_text (s : Shader) : Woven s.words s.text := by
  have hprecision : ∀ t : GType, Woven [] (lineAt 0 ("precision highp " ++ t.name ++ ";")) :=
    fun t => woven_lineAt 0 (((Woven.mark t.isMark_name).mark_append (by decide)).append_mark
      (by decide))
  have hprecisions := woven_join hprecision s.precisions
  rw [List.flatMap_eq_nil_iff.mpr fun _ _ => rfl] at hprecisions
  have hglobals : ∀ {word : String}, isMark word = true → ∀ vs : List Global,
      Woven (vs.map (·.name)) (String.join (vs.map (Global.text word))) := by
    intro word hword vs
    rw [List.map_eq_flatMap]
    exact woven_join (fun v => Global.woven_text hword v) vs
  have huniforms := hglobals (show isMark "uniform " = true by decide) s.uniforms
  have houtputs := hglobals (show isMark "out " = true by decide) s.outputs
  have hvariables := hglobals (show isMark "" = true by decide) s.globals
  have hfunctions : Woven (s.functions.flatMap Function.words)
      (String.join (s.functions.map fun f => "\n" ++ f.text)) :=
    woven_join (fun f => f.woven_text.mark_append (by decide)) s.functions
  have hversion : Woven [] (lineAt 0 "#version 300 es") := woven_lineAt 0 (.mark (by decide))
  have hall := ((((((hversion.append hprecisions).append_mark (m := "\n") (by decide)).append
    huniforms).append_mark (m := "\n") (by decide)).append houtputs).append_mark (m := "\n")
    (by decide)).append hvariables |>.append hfunctions
  simpa [Shader.words, Shader.text] using hall

end Shader

end Cellular
