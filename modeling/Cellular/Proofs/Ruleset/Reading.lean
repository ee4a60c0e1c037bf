import Cellular.Config.Ruleset
import Cellular.Proofs.Source.Statements

/-!
# The program of a ruleset

The program that a ruleset is written as is a text.  What is read from it is one condition on the
cell with the conditions of the ruleset inside.

* `Ruleset.InRange` says what the check of a ruleset asks for.
* `Ruleset.rule` is the program as a tree.
* `Ruleset.exists_parse`: the text is read as this tree, whatever the totals and ages are.

The text of the program contains conditions on lists of any length, so it cannot be read by
computation. The tree is written down as it should be, with the same lists, and for each piece of
the text it is shown that the piece is read as the matching part of the tree.  A condition over a
list is a chain of operators of one rank.  It is shown to be ranked, and then the text is read as
this chain.  The fixed parts of the text are read by evaluation.
-/

namespace Cellular

namespace Ruleset

/-! ## Ranges

The check of a ruleset and the conditions under which its program can be read are the same.
-/

/-- Totals are totals of eight neighbours, and ages are ages of a cell. -/
structure InRange (r : Ruleset) : Prop where
  survive : ∀ n ∈ r.survive, 0 ≤ n ∧ n ≤ 8
  birth : ∀ n ∈ r.birth, 0 ≤ n ∧ n ≤ 8
  naturalDeath : 0 ≤ r.naturalDeath ∧ r.naturalDeath ≤ maxAge
  starve : 0 ≤ r.starve ∧ r.starve ≤ maxAge

lemma checkTotals_eq_ok {path : String} {totals : List Int} :
    checkTotals path totals = .ok () ↔ ∀ n ∈ totals, 0 ≤ n ∧ n ≤ 8 := by
  induction totals with
  | nil => simp [checkTotals]
  | cons n more ih =>
      rw [checkTotals, List.forall_mem_cons, ← ih]
      split_ifs with h
      · simp only [Bool.or_eq_true, decide_eq_true_eq] at h
        constructor
        · rintro ⟨⟩
        · omega
      · simp only [Bool.or_eq_true, decide_eq_true_eq, not_or] at h
        exact ⟨fun hmore => ⟨by omega, hmore⟩, fun hall => hall.2⟩

/-- **The check of a ruleset is the check of its ranges.** -/
theorem validate_eq_ok {r : Ruleset} : r.validate = .ok () ↔ r.InRange := by
  simp only [validate, bind_eq_ok]
  constructor
  · rintro ⟨⟨⟩, hsurvive, ⟨⟩, hbirth, h⟩
    split_ifs at h with hdeath hstarve
    simp only [Bool.or_eq_true, decide_eq_true_eq, not_or] at hdeath hstarve
    exact ⟨checkTotals_eq_ok.mp hsurvive, checkTotals_eq_ok.mp hbirth, by omega, by omega⟩
  · rintro ⟨hsurvive, hbirth, hdeath, hstarve⟩
    refine ⟨(), checkTotals_eq_ok.mpr hsurvive, (), checkTotals_eq_ok.mpr hbirth, ?_⟩
    rw [if_neg (by simp; omega), if_neg (by simp; omega)]

/-! ## The program as a tree

These are definitions by recursion on the lists of the ruleset, in the shape of the text.
-/

/-- Whether the cell is alive. -/
def alive : Path := ⟨cellName, ["alive"]⟩

/-- The age of the cell. -/
def age : Path := ⟨cellName, ["age"]⟩

/-- A number as it is written. -/
def numeral (n : Nat) : Expr Unit := .int () (Int32.ofNat n) (toString n)

/-- The condition that the age of the cell is less than `n`. -/
def isYounger (n : Nat) : Chain Unit :=
  .node () .lt (.operand (.access () age)) (.operand (numeral n))

/-- The condition that there are `n` live neighbours. -/
def isTotal (n : Int) : Chain Unit :=
  .node () .eq (.operand (.access () ⟨neighbours.name, []⟩)) (.operand (numeral n.toNat))

/-- The condition that the number of live neighbours is in a list. -/
def isAnyOf : List Int → Chain Unit
  | [] => .operand (.bool () false)
  | n :: more => more.foldl (fun c n => .node () .or c (isTotal n)) (isTotal n)

/-- The condition that a live cell stays alive by the rule. -/
def survives (r : Ruleset) : Chain Unit :=
  if 0 < r.naturalDeath then
    .node () .and (.operand (isAnyOf r.survive).toExpr) (isYounger r.naturalDeath.toNat)
  else isAnyOf r.survive

/-- A cell grows older. -/
def grow : Stmt Unit := .assign () () age (.update .add) (numeral 1)

/-- A cell gets the age 0. -/
def rejuvenate : Stmt Unit := .assign () () age .set (numeral 0)

/-- A cell is alive or not. -/
def become (v : Bool) : Stmt Unit := .assign () () alive .set (.bool () v)

/-- What happens to a live cell that the rule lets die. -/
def death (r : Ruleset) : List (Stmt Unit) :=
  if 0 < r.starve then
    [.branch () (isYounger r.starve.toNat).toExpr (.block () [grow])
      (.block () [become false, rejuvenate])]
  else [become false, rejuvenate]

/-- The program of a ruleset. -/
def rule (r : Ruleset) : List (Stmt Unit) :=
  [.branch () (.access () alive)
    (.block () [.branch () (.unary () .not r.survives.toExpr) (.block () r.death)
      (.when () (isYounger maxAge).toExpr (.block () [grow]))])
    (.block () [rejuvenate, .when () (isAnyOf r.birth).toExpr (.block () [become true])])]

/-! ## Conditions

Texts are taken as lists of characters, as the lexer sees them.
-/

lemma isAnyOf_ranked (totals : List Int) : (isAnyOf totals).Ranked ∧ (isAnyOf totals).Above 1 := by
  have hor : ∀ (more : List Int) (c : Chain Unit), c.Ranked → c.Above 1 →
      (more.foldl (fun c n => .node () .or c (isTotal n)) c).Ranked ∧
        (more.foldl (fun c n => .node () .or c (isTotal n)) c).Above 1 := by
    intro more
    induction more with
    | nil => exact fun c hranked habove => ⟨hranked, habove⟩
    | cons n more ih =>
        intro c hranked habove
        refine ih _ ⟨habove, ?_, hranked, trivial, trivial, trivial, trivial⟩ (Nat.le_refl 1)
        exact (by decide : BinaryOp.or.precedence + 1 ≤ BinaryOp.eq.precedence)
  cases totals with
  | nil => exact ⟨trivial, trivial⟩
  | cons n more =>
      exact hor more _ ⟨trivial, trivial, trivial, trivial⟩
        (by decide : 1 ≤ BinaryOp.eq.precedence)

lemma isYounger_ranked (n : Nat) : (isYounger n).Ranked ∧ (isYounger n).Above 1 :=
  ⟨⟨trivial, trivial, trivial, trivial⟩, (by decide : 1 ≤ BinaryOp.lt.precedence)⟩

lemma rereads_numeral {n : Nat} (h : n ≤ maxInt) :
    Rereads .unary (toString n).toList (numeral n) := by
  have htext : (toString n).toList = Nat.toDigits 10 n := Nat.toList_repr
  have hvalue : Number.digitsValue (toString n).toList = n := by
    rw [htext]
    exact Nat.ofDigitChars_toDigits (by decide) (by decide)
  have hword : Word .int (toString n).toList := by
    rw [htext]
    refine .int (fun c hc => ?_) Nat.toDigits_ne_nil
    exact Nat.isDigit_of_mem_toDigits (by decide) (by decide) hc
  have hread := Rereads.int hword (hvalue.symm ▸ h)
  rwa [hvalue] at hread

/-- The names of a dotted name are words if they scan as such. -/
lemma words_of_scan? {path : Path} (h : ∀ part ∈ path.parts,
    scan? part.toList = some (.token .ident, part.toList.length)) :
    ∀ part ∈ path.parts, Word .ident part.toList :=
  fun part hpart => word_of_scan?_length (h part hpart)

lemma alive_words : ∀ part ∈ alive.parts, Word .ident part.toList :=
  words_of_scan? (by decide +kernel)

lemma age_words : ∀ part ∈ age.parts, Word .ident part.toList :=
  words_of_scan? (by decide +kernel)

lemma neighbours_words :
    ∀ part ∈ (⟨neighbours.name, []⟩ : Path).parts, Word .ident part.toList :=
  words_of_scan? (by decide +kernel)

/-- A number that is not negative is written in digits alone. -/
lemma toList_repr {n : Int} (h : 0 ≤ n) : n.repr.toList = Nat.toDigits 10 n.toNat := by
  obtain ⟨m, rfl⟩ := Int.eq_ofNat_of_zero_le h
  exact Nat.toList_repr

/-- A text inside a text is inserted as it is. -/
lemma toString_text (s : String) : toString s = s := rfl

lemma rereads_isTotal {n : Int} (h : 0 ≤ n ∧ n ≤ 8) :
    RereadsChain (s!"neighbours == {n}").toList (isTotal n) := by
  have hname : Rereads .unary "neighbours".toList (.access () ⟨neighbours.name, []⟩) :=
    .access neighbours_words
  have hnumeral := rereads_numeral (n := n.toNat) (by simp [maxInt]; omega)
  have hwhole := RereadsChain.node .eq (by decide) (.operand hname) (.operand hnumeral)
  simpa [BinaryOp.symbol, isTotal, toString_text, toList_repr h.1] using hwhole

lemma rereads_isYounger {n : Nat} (h : n ≤ maxAge) :
    RereadsChain ("cell.age < ".toList ++ (toString n).toList) (isYounger n) := by
  have hnumeral := rereads_numeral (n := n) (h.trans (by decide))
  have hwhole := RereadsChain.node .lt (by decide) (.operand (.access age_words))
    (.operand hnumeral)
  rw [show age.text = "cell.age" by decide] at hwhole
  simpa [BinaryOp.symbol, isYounger] using hwhole

/-- The text of a condition on totals, total by total. -/
lemma toList_anyOf_cons (n : Int) (more : List Int) :
    (anyOf (n :: more)).toList = (s!"neighbours == {n}").toList ++
      more.flatMap fun n => " || ".toList ++ (s!"neighbours == {n}").toList := by
  rw [anyOf, List.map_cons, toList_intercalate, List.flatMap_map]
  simp

/-- **A list of totals is read as the condition that one of them is met.** -/
lemma rereads_isAnyOf {totals : List Int} (h : ∀ n ∈ totals, 0 ≤ n ∧ n ≤ 8) :
    RereadsChain (anyOf totals).toList (isAnyOf totals) := by
  have hor : ∀ (more : List Int) (cs : List Char) (c : Chain Unit),
      (∀ n ∈ more, 0 ≤ n ∧ n ≤ 8) → RereadsChain cs c →
      RereadsChain (cs ++ more.flatMap fun n => " || ".toList ++ (s!"neighbours == {n}").toList)
        (more.foldl (fun c n => .node () .or c (isTotal n)) c) := by
    intro more
    induction more with
    | nil => exact fun cs c _ hc => by simpa using hc
    | cons n more ih =>
        intro cs c hmore hc
        rw [List.forall_mem_cons] at hmore
        have hnode := RereadsChain.node .or (by decide) hc (rereads_isTotal hmore.1)
        simpa [BinaryOp.symbol] using ih _ _ hmore.2 hnode
  cases totals with
  | nil => exact .operand (.bool false)
  | cons n more =>
      rw [List.forall_mem_cons] at h
      have hwhole := hor more _ _ h.2 (rereads_isTotal h.1)
      rwa [toList_anyOf_cons]

/-- **The condition to stay alive is read with the list of totals in parentheses**, before the limit
of age. -/
lemma rereads_survives {r : Ruleset} (h : r.InRange) :
    Rereads .expr r.survival.toList r.survives.toExpr := by
  have htotals := rereads_isAnyOf h.survive
  have hranked := isAnyOf_ranked r.survive
  rw [survival, survives]
  split_ifs with hlimit
  · have hparens := (htotals.expr hranked.1 hranked.2).parens
    have hyounger := rereads_isYounger (n := r.naturalDeath.toNat)
      (by have := h.naturalDeath; omega)
    have hwhole := RereadsChain.node .and (by decide) (.operand hparens) hyounger
    refine RereadsChain.expr ?_ ⟨trivial, ?_, trivial, (isYounger_ranked _).1⟩
      (by decide : 1 ≤ BinaryOp.and.precedence)
    · simpa [BinaryOp.symbol, toString_text, toList_repr h.naturalDeath.1] using hwhole
    · exact (by decide : BinaryOp.and.precedence + 1 ≤ BinaryOp.lt.precedence)
  · exact htotals.expr hranked.1 hranked.2

/-! ## Statements

Between statements there are line breaks and indentation, and these are blanks.
-/

lemma rereads_grow : Stmt.Rereads "cell.age += 1;".toList grow :=
  .assign age age_words (.update .add) (by decide)
    (rereads_numeral (n := 1) (by decide)).chain.expr

lemma rereads_rejuvenate : Stmt.Rereads "cell.age = 0;".toList rejuvenate :=
  .assign age age_words .set (by decide)
    (rereads_numeral (n := 0) (by decide)).chain.expr

lemma rereads_become (v : Bool) :
    Stmt.Rereads ("cell.alive = ".toList ++ ((if v then "true" else "false").toList ++ [';']))
      (become v) :=
  .assign alive alive_words .set (by decide) (Rereads.bool v).chain.expr

/-- The lines on what happens to a cell that the rule lets die, between the braces around them. -/
lemma rereads_death {r : Ruleset} (h : r.InRange) :
    Stmt.AllReread ('\n' :: ((r.deathLines.map (· ++ "\n")).flatMap String.toList ++ "    ".toList))
      r.death := by
  have hdies : ∀ indent outer : List Char, indent.all isBlank = true → outer.all isBlank = true →
      Stmt.AllReread (indent ++ ("cell.alive = false;".toList ++ (indent ++ ("cell.age = 0;".toList ++
        outer)))) [become false, rejuvenate] := fun indent outer hindent houter =>
    .cons indent hindent (rereads_become false)
      (.cons indent hindent rereads_rejuvenate (.blank outer houter))
  rw [deathLines, death]
  split_ifs with hstarve
  · have hyounger := rereads_isYounger (n := r.starve.toNat) (by have := h.starve; omega)
    have hranked := isYounger_ranked r.starve.toNat
    have hgrow : Stmt.AllReread ("\n            cell.age += 1;\n        ".toList) [grow] :=
      .cons "\n            ".toList (by decide) rereads_grow
        (.blank "\n        ".toList (by decide))
    have hbranch := (Stmt.Rereads.branch (hyounger.expr hranked.1 hranked.2) (.block hgrow) rfl
      (.block (hdies "\n            ".toList "\n        ".toList (by decide) (by decide))))
    have hwhole := Stmt.AllReread.cons "\n        ".toList (by decide) hbranch
      (.blank "\n    ".toList (by decide))
    simpa [toString_text, toList_repr h.starve.1] using hwhole
  · simpa using hdies "\n        ".toList "\n    ".toList (by decide) (by decide)

set_option maxRecDepth 4000 in
/-- **The program of a ruleset is read as its tree.** -/
theorem exists_parse {r : Ruleset} (h : r.InRange) :
    ∃ p, Program.parse r.program = .ok p ∧ Stmt.allBare p.body = r.rule := by
  have hyounger := rereads_isYounger (n := maxAge) (Nat.le_refl _)
  have hranked := isYounger_ranked maxAge
  have hgrow : Stmt.AllReread ("\n        cell.age += 1;\n    ".toList) [grow] :=
    .cons "\n        ".toList (by decide) rereads_grow
      (.blank "\n    ".toList (by decide))
  have hlive := Stmt.Rereads.branch
    (Rereads.unary (by decide : UnaryOp.not ∈ [UnaryOp.not, .neg])
      (rereads_survives h).parens).chain.expr
    (.block (rereads_death h)) rfl
    (.when (hyounger.expr hranked.1 hranked.2) (.block hgrow))
  have hborn : Stmt.AllReread ("\n        cell.alive = true;\n    ".toList) [become true] :=
    .cons "\n        ".toList (by decide) (rereads_become true)
      (.blank "\n    ".toList (by decide))
  have hbirth := (rereads_isAnyOf h.birth).expr (isAnyOf_ranked r.birth).1 (isAnyOf_ranked r.birth).2
  have hdead := Stmt.AllReread.cons "\n    ".toList (by decide) rereads_rejuvenate
    (.cons "\n    ".toList (by decide) (.when hbirth (.block hborn))
      (.blank "\n".toList (by decide)))
  have hwhole := Stmt.AllReread.cons [] (by decide)
    (.branch (Rereads.access alive_words).chain.expr
      (.block (.cons "\n    ".toList (by decide) hlive
        (.blank "\n".toList (by decide)))) rfl (.block hdead))
    (.blank "\n".toList (by decide))
  refine Program.exists_parse ?_
  rw [show alive.text = "cell.alive" by decide] at hwhole
  simpa [program, rule, UnaryOp.symbol, toString_text] using hwhole

end Ruleset

end Cellular
