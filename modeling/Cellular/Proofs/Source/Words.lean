import Cellular.Source.Lexer
import Mathlib.Data.List.TakeWhile
import Mathlib.Tactic.Common

/-!
# The words of a rule text

The lexical rules are tried in order at every place, so what a rule takes depends on the rules
before it and on the text behind.  The words of the language can be said without either.

* `Word` are the texts of the tokens of each kind.
* `word_of_scan?`: what is scanned as a token is a word of its kind.
* `scan?_word`: a word is scanned whole when no character stands behind it that could be part of it
  (`Apart`).
* `Word.decimal`: the floats among them are decimal numerals.
* `Token.Lexical` are the tokens whose text is a word of their kind; the text then decides the kind
  (`Token.Lexical.kind_eq`).
* `lex_ok`: a text is split into such tokens and the mark of its end.

A word in a text is the longest one that starts at its place, and which rule finds it depends on the
order of the rules: floats before integers, keywords before names.  `Word` says of a text by itself
what kind of word it is, and `Apart` says of the text behind that it cannot make the word longer.
The main theorems are converses of each other.  A scanned token is a word of its kind; and a word
before a text that is apart from it is scanned, whole and as a token of its kind.
-/

namespace Cellular

open Number (isDigit Decimal)

/-! ## Words

Numbers have a grammar of their own, names and operators are given by classes of characters.
-/

/-- Digits only. -/
def Digits (w : List Char) : Prop := ∀ c ∈ w, isDigit c = true

/-- A mark, an optional sign and at least one digit. -/
inductive Exponent : List Char → Prop where
  | plain {mark : Char} {ds : List Char} (hmark : mark = 'e' ∨ mark = 'E') (hds : Digits ds)
      (hne : ds ≠ []) : Exponent (mark :: ds)
  | signed {mark sign : Char} {ds : List Char} (hmark : mark = 'e' ∨ mark = 'E')
      (hsign : sign = '+' ∨ sign = '-') (hds : Digits ds) (hne : ds ≠ []) :
      Exponent (mark :: sign :: ds)

/-- The texts of the tokens of each kind. -/
inductive Word : TokenKind → List Char → Prop where
  /-- Digits with a point before, among or behind them, and maybe an exponent. -/
  | point {ds fs ex : List Char} (hds : Digits ds) (hfs : Digits fs) (hne : ds ≠ [] ∨ fs ≠ [])
      (hex : ex = [] ∨ Exponent ex) : Word .float (ds ++ '.' :: (fs ++ ex))
  | exponent {ds ex : List Char} (hds : Digits ds) (hne : ds ≠ []) (hex : Exponent ex) :
      Word .float (ds ++ ex)
  | int {ds : List Char} (hds : Digits ds) (hne : ds ≠ []) : Word .int ds
  | keyword {w : List Char} (h : String.ofList w ∈ keywords) : Word .keyword w
  | ident {c : Char} {cs : List Char} (hc : isNameStart c = true)
      (hcs : ∀ d ∈ cs, isNamePart d = true) (hnot : String.ofList (c :: cs) ∉ keywords) :
      Word .ident (c :: cs)
  | long {c d : Char} (h : (c, d) ∈ longOperators) : Word .operator [c, d]
  | short {c : Char} (h : c ∈ shortOperators) : Word .operator [c]
  | punct {c : Char} (h : c ∈ punctuation) : Word .punct [c]

/-- Whether the character `c` behind the word `w` of kind `k` could be part of a longer one. -/
def TokenKind.joins (k : TokenKind) (w : List Char) (c : Char) : Bool :=
  match k with
  | .float | .int => isNamePart c || c = '.'
  | .keyword | .ident => isNamePart c
  | .operator => c ∈ ['=', '/', '*']
  | .punct => w = ['.'] && isDigit c
  | .eof => false

/-- The text `rest` cannot make the word `w` longer. -/
def Apart (k : TokenKind) (w rest : List Char) : Prop := ∀ c ∈ rest.head?, k.joins w c = false

/-! ## Characters

The classes of characters that lexemes start with hardly overlap, and where they do, an order
decides.
-/

lemma isDigit_iff {c : Char} : isDigit c = true ↔ 48 ≤ c.toNat ∧ c.toNat ≤ 57 := by
  simp only [isDigit, Bool.and_eq_true, decide_eq_true_eq, Char.le_def, UInt32.le_iff_toNat_le]
  exact Iff.rfl

lemma isNameStart_iff {c : Char} : isNameStart c = true ↔
    (97 ≤ c.toNat ∧ c.toNat ≤ 122) ∨ (65 ≤ c.toNat ∧ c.toNat ≤ 90) ∨ c = '_' := by
  simp only [isNameStart, Bool.or_eq_true, Bool.and_eq_true, decide_eq_true_eq, Char.le_def,
    UInt32.le_iff_toNat_le, or_assoc]
  exact Iff.rfl

lemma isDigit_of_isNameStart {c : Char} (h : isNameStart c = true) : isDigit c = false := by
  rw [← Bool.not_eq_true, isDigit_iff]
  rcases isNameStart_iff.mp h with h | h | rfl
  · omega
  · omega
  · decide

lemma isBlank_of_isNamePart {c : Char} (h : isNamePart c = true) : isBlank c = false := by
  rw [← Bool.not_eq_true]
  simp only [isBlank, Bool.or_eq_true, decide_eq_true_eq]
  rintro ((((rfl | rfl) | rfl) | rfl) | rfl) <;> exact absurd h (by decide)

lemma isNamePart_of_isDigit {c : Char} (h : isDigit c = true) : isNamePart c = true := by
  rw [isNamePart, h, Bool.or_true]

lemma isNamePart_of_isNameStart {c : Char} (h : isNameStart c = true) : isNamePart c = true := by
  rw [isNamePart, h, Bool.true_or]

/-- What stands apart from a number does not continue it. -/
lemma Apart.number {k : TokenKind} (hk : k = .float ∨ k = .int) {w rest : List Char}
    (h : Apart k w rest) :
    ∀ c ∈ rest.head?, (isDigit c = false ∧ c ≠ 'e' ∧ c ≠ 'E') ∧ c ≠ '.' := by
  intro c hc
  have hjoin : isNamePart c = false ∧ c ≠ '.' := by
    rcases hk with rfl | rfl <;> simpa [TokenKind.joins] using h c hc
  have hdigit : isDigit c = false := by
    rw [isNamePart, Bool.or_eq_false_iff] at hjoin
    exact hjoin.1.2
  refine ⟨⟨hdigit, ?_, ?_⟩, hjoin.2⟩ <;> rintro rfl <;> exact absurd hjoin.1 (by decide)

lemma ne_of_isNamePart {c d : Char} (h : isNamePart c = true) (hd : isNamePart d = false) :
    c ≠ d := by
  rintro rfl
  exact absurd h (by simp [hd])

/-! ## Spans

Most rules take a run of characters of one class.
-/

section Spans

variable {p : Char → Bool}

lemma spanLength_cons_of_false {c : Char} (h : p c = false) (cs : List Char) :
    spanLength p (c :: cs) = 0 := by
  simp [spanLength, h]

lemma spanLength_of_head {cs : List Char} (h : ∀ c ∈ cs.head?, p c = false) :
    spanLength p cs = 0 := by
  cases cs with
  | nil => rfl
  | cons c cs => exact spanLength_cons_of_false (h c rfl) cs

/-- A run of a class ends where the class does. -/
lemma spanLength_append {w rest : List Char} (hw : ∀ c ∈ w, p c = true)
    (hrest : ∀ c ∈ rest.head?, p c = false) : spanLength p (w ++ rest) = w.length := by
  rw [spanLength, List.takeWhile_append_of_pos hw, List.length_append]
  exact congrArg (w.length + ·) (spanLength_of_head hrest)

/-- Every text is a run of a class and something that does not start in it. -/
lemma exists_span (p : Char → Bool) (cs : List Char) :
    ∃ w rest, cs = w ++ rest ∧ (∀ c ∈ w, p c = true) ∧ (∀ c ∈ rest.head?, p c = false) ∧
      spanLength p cs = w.length := by
  refine ⟨cs.takeWhile p, cs.dropWhile p, (List.takeWhile_append_dropWhile).symm,
    fun c hc => List.mem_takeWhile_imp hc, fun c hc => ?_, rfl⟩
  have hne := List.head?_dropWhile_not p cs
  rw [Option.mem_def.mp hc] at hne
  simpa using hne

end Spans

/-! ## Numbers

A float needs a point or an exponent; without both its digits are an integer, which another rule
takes.
-/

lemma Exponent.head {w : List Char} (h : Exponent w) :
    ∃ mark cs, w = mark :: cs ∧ (mark = 'e' ∨ mark = 'E') := by
  cases h with
  | plain hmark _ _ => exact ⟨_, _, rfl, hmark⟩
  | signed hmark _ _ _ => exact ⟨_, _, rfl, hmark⟩

/-- No digit and no point starts an exponent. -/
lemma Exponent.head_not {w : List Char} (h : Exponent w) (rest : List Char) :
    ∀ c ∈ (w ++ rest).head?, isDigit c = false ∧ c ≠ '.' := by
  obtain ⟨mark, cs, rfl, hmark⟩ := h.head
  intro c hc
  cases hc
  rcases hmark with rfl | rfl <;> decide

lemma exponentLength_append {w rest : List Char} (h : Exponent w)
    (hrest : ∀ c ∈ rest.head?, isDigit c = false) : exponentLength (w ++ rest) = w.length := by
  cases h with
  | @plain mark ds hmark hds hne =>
      obtain ⟨d, ds, rfl⟩ := List.exists_cons_of_ne_nil hne
      have hd : isDigit d = true := hds d List.mem_cons_self
      have hsign : ¬ (d = '+' || d = '-') = true := by
        simp only [Bool.or_eq_true, decide_eq_true_eq]
        rintro (rfl | rfl) <;> exact absurd hd (by decide)
      have hspan := spanLength_append hds hrest
      have hmark' : (mark = 'e' || mark = 'E') = true := by simpa using hmark
      rw [List.cons_append] at hspan
      simp only [List.cons_append, exponentLength, hmark', if_true, hsign, if_false, hspan,
        List.length_cons, Bool.false_eq_true]
  | @signed mark sign ds hmark hsign hds hne =>
      obtain ⟨d, ds, rfl⟩ := List.exists_cons_of_ne_nil hne
      have hspan := spanLength_append hds hrest
      have hmark' : (mark = 'e' || mark = 'E') = true := by simpa using hmark
      have hsign' : (sign = '+' || sign = '-') = true := by simpa using hsign
      rw [List.cons_append] at hspan
      simp only [List.cons_append, exponentLength, hmark', if_true, hsign', hspan,
        List.length_cons]

lemma exponentLength_of_head {cs : List Char} (h : ∀ c ∈ cs.head?, c ≠ 'e' ∧ c ≠ 'E') :
    exponentLength cs = 0 := by
  cases cs with
  | nil => rfl
  | cons c cs => simp [exponentLength, h c rfl]

/-- What is taken as an exponent is one. -/
lemma exponent_of_exponentLength {cs : List Char} {n : Nat} (h : exponentLength cs = n + 1) :
    Exponent (cs.take (n + 1)) := by
  rcases cs with _ | ⟨mark, cs⟩
  · cases h
  simp only [exponentLength] at h
  split_ifs at h with hmark
  replace hmark : mark = 'e' ∨ mark = 'E' := by simpa using hmark
  rcases cs with _ | ⟨sign, ds⟩
  · cases h
  simp only at h
  split_ifs at h with hsign
  · replace hsign : sign = '+' ∨ sign = '-' := by simpa using hsign
    obtain ⟨w, rest, rfl, hw, -, hspan⟩ := exists_span isDigit ds
    rw [hspan] at h
    obtain ⟨d, w, rfl⟩ : ∃ d w', w = d :: w' := by
      cases w with
      | nil => cases h
      | cons d w => exact ⟨d, w, rfl⟩
    obtain rfl : n = w.length + 2 := by simpa using h.symm
    have htake : (mark :: sign :: (d :: w ++ rest)).take (w.length + 2 + 1) =
        mark :: sign :: d :: w := by
      simp
    rw [htake]
    exact .signed hmark hsign hw (by simp)
  · obtain ⟨w, rest, hsplit, hw, -, hspan⟩ := exists_span isDigit (sign :: ds)
    rw [hspan] at h
    obtain ⟨d, w, rfl⟩ : ∃ d w', w = d :: w' := by
      cases w with
      | nil => cases h
      | cons d w => exact ⟨d, w, rfl⟩
    obtain rfl : n = w.length + 1 := by simpa using h.symm
    have htake : (mark :: sign :: ds).take (w.length + 1 + 1) = mark :: d :: w := by
      rw [hsplit]
      simp
    rw [htake]
    exact .plain hmark hw (by simp)

/-- A float with a point, by its parts. -/
lemma floatLength_dot {ds : List Char} (hds : Digits ds) (back : List Char) :
    floatLength (ds ++ '.' :: back)
      = if ds.length = 0 && spanLength isDigit back = 0 then 0
        else ds.length + 1 + spanLength isDigit back
          + exponentLength (back.drop (spanLength isDigit back)) := by
  have hspan : spanLength isDigit (ds ++ '.' :: back) = ds.length :=
    spanLength_append hds (by rintro c ⟨⟩; decide)
  simp only [floatLength, hspan, List.drop_left]

/-- A float without a point, by its parts. -/
lemma floatLength_no_dot {ds rest : List Char} (hds : Digits ds)
    (hrest : ∀ c ∈ rest.head?, isDigit c = false ∧ c ≠ '.') :
    floatLength (ds ++ rest)
      = if ds.length = 0 || exponentLength rest = 0 then 0
        else ds.length + exponentLength rest := by
  have hspan : spanLength isDigit (ds ++ rest) = ds.length :=
    spanLength_append hds fun c hc => (hrest c hc).1
  simp only [floatLength, hspan, List.drop_left]
  split
  · exact absurd rfl (hrest '.' rfl).2
  · split <;> simp_all

lemma floatLength_of_head {cs : List Char} (h : ∀ c ∈ cs.head?, isDigit c = false ∧ c ≠ '.') :
    floatLength cs = 0 := by
  have hempty : Digits [] := by simp [Digits]
  exact floatLength_no_dot hempty h

lemma floatLength_point {ds fs ex rest : List Char} (hds : Digits ds) (hfs : Digits fs)
    (hne : ds ≠ [] ∨ fs ≠ []) (hex : ex = [] ∨ Exponent ex)
    (hrest : ∀ c ∈ rest.head?, isDigit c = false ∧ c ≠ 'e' ∧ c ≠ 'E') :
    floatLength (ds ++ '.' :: (fs ++ ex) ++ rest) = (ds ++ '.' :: (fs ++ ex)).length := by
  have htail : ∀ c ∈ (ex ++ rest).head?, isDigit c = false := by
    rcases hex with rfl | hex
    · exact fun c hc => (hrest c hc).1
    · exact fun c hc => (hex.head_not rest c hc).1
  have hexp : exponentLength (ex ++ rest) = ex.length := by
    rcases hex with rfl | hex
    · exact exponentLength_of_head fun c hc => (hrest c hc).2
    · exact exponentLength_append hex fun c hc => (hrest c hc).1
  have hsome : (decide (ds.length = 0) && decide (fs.length = 0)) = false := by
    rcases hne with hne | hne <;> simp [hne]
  rw [List.append_assoc, List.cons_append, List.append_assoc, floatLength_dot hds,
    spanLength_append hfs htail, List.drop_left, hexp, hsome]
  simp only [Bool.false_eq_true, if_false, List.length_append, List.length_cons]
  omega

lemma floatLength_exponent {ds ex rest : List Char} (hds : Digits ds) (hne : ds ≠ [])
    (hex : Exponent ex) (hrest : ∀ c ∈ rest.head?, isDigit c = false) :
    floatLength (ds ++ ex ++ rest) = (ds ++ ex).length := by
  have hlen : ex.length ≠ 0 := by
    obtain ⟨mark, cs, rfl, -⟩ := hex.head
    simp
  rw [List.append_assoc, floatLength_no_dot hds (hex.head_not rest),
    exponentLength_append hex hrest, if_neg (by simp [hne, hlen]), List.length_append]

/-- What is taken as a float is one. -/
lemma word_of_floatLength {cs : List Char} {n : Nat} (h : floatLength cs = n + 1) :
    Word .float (cs.take (n + 1)) := by
  obtain ⟨ds, tail, rfl, hds, htail, -⟩ := exists_span isDigit cs
  by_cases hdot : ∃ back, tail = '.' :: back
  · obtain ⟨back, rfl⟩ := hdot
    obtain ⟨fs, tail, rfl, hfs, -, hspan⟩ := exists_span isDigit back
    rw [floatLength_dot hds, hspan, List.drop_left] at h
    split_ifs at h with hsome
    replace hsome : ds ≠ [] ∨ fs ≠ [] := by
      rw [← not_and_or]
      simpa using hsome
    cases hexp : exponentLength tail with
    | zero =>
        have htake : (ds ++ '.' :: (fs ++ tail)).take (n + 1) = ds ++ '.' :: (fs ++ []) := by
          rw [← h, hexp, Nat.add_assoc, Nat.add_assoc, List.take_length_add_append, Nat.add_comm 1,
            List.take_succ_cons, List.take_left, List.append_nil]
        rw [htake]
        exact .point hds hfs hsome (.inl rfl)
    | succ m =>
        have htake : (ds ++ '.' :: (fs ++ tail)).take (n + 1)
            = ds ++ '.' :: (fs ++ tail.take (m + 1)) := by
          rw [← h, hexp, Nat.add_assoc, Nat.add_assoc, List.take_length_add_append, Nat.add_comm 1,
            List.take_succ_cons, List.take_length_add_append]
        rw [htake]
        exact .point hds hfs hsome (.inr (exponent_of_exponentLength hexp))
  · have hrest : ∀ c ∈ tail.head?, isDigit c = false ∧ c ≠ '.' := by
      intro c hc
      refine ⟨htail c hc, ?_⟩
      rintro rfl
      obtain ⟨back, hback⟩ := List.head?_eq_some_iff.mp hc
      exact hdot ⟨back, hback⟩
    rw [floatLength_no_dot hds hrest] at h
    split_ifs at h with hsome
    cases hexp : exponentLength tail with
    | zero => simp [hexp] at hsome
    | succ m =>
        have htake : (ds ++ tail).take (n + 1) = ds ++ tail.take (m + 1) := by
          rw [← h, hexp, List.take_length_add_append]
        rw [htake]
        refine .exponent hds ?_ (exponent_of_exponentLength hexp)
        rintro rfl
        simp at hsome

/-- What is left behind a run of a class that ends. -/
lemma dropWhile_append {p : Char → Bool} {w rest : List Char} (hw : ∀ c ∈ w, p c = true)
    (hrest : ∀ c ∈ rest.head?, p c = false) :
    (w ++ rest).takeWhile p = w ∧ (w ++ rest).dropWhile p = rest := by
  rw [List.takeWhile_append_of_pos hw, List.dropWhile_append_of_pos hw]
  cases rest with
  | nil => simp
  | cons c rest => simp [hrest c rfl]

/-! ## Numerals

The value of a float is found by a reader for decimals, which knows more forms than rules can have.
-/

lemma takeSign_of_head {cs : List Char} (h : ∀ c ∈ cs.head?, isDigit c = true ∨ c = '.') :
    Number.takeSign cs = (false, cs) := by
  rw [Number.takeSign.eq_def]
  split
  · exact absurd (h '-' rfl) (by decide)
  · exact absurd (h '+' rfl) (by decide)
  · rfl

/-- Every exponent is read. -/
lemma Exponent.parses {w : List Char} (h : Exponent w) :
    ∃ e, Decimal.parseExponent? w = some e := by
  cases h with
  | @plain mark ds hmark hds hne =>
      have hsign := takeSign_of_head (fun c hc => .inl (hds c (List.mem_of_mem_head? hc)))
      have hall : ds.all isDigit = true := List.all_eq_true.mpr hds
      simp [Decimal.parseExponent?, hsign, hmark, hall, hne]
  | @signed mark sign ds hmark hsign hds hne =>
      have hall : ds.all isDigit = true := List.all_eq_true.mpr hds
      rcases hsign with rfl | rfl <;>
        simp [Decimal.parseExponent?, Number.takeSign, hmark, hall, hne]

/-- **Every float of a rule text is a decimal numeral.** -/
lemma Word.decimal {w : List Char} (h : Word .float w) : ∃ d, Decimal.parse? w = some d := by
  cases h with
  | @point ds fs ex hds hfs hne hex =>
      have hsign : Number.takeSign (ds ++ '.' :: (fs ++ ex)) =
          (false, ds ++ '.' :: (fs ++ ex)) := by
        cases ds with
        | nil => exact takeSign_of_head (by rintro c ⟨⟩; exact .inr rfl)
        | cons d ds =>
            exact takeSign_of_head (by rintro c ⟨⟩; exact .inl (hds d List.mem_cons_self))
      have hwhole := dropWhile_append hds (fun c (hc : c ∈ ('.' :: (fs ++ ex)).head?) => by
        cases hc
        decide)
      have htail : ∀ c ∈ ex.head?, isDigit c = false := by
        rcases hex with rfl | hex
        · simp
        · intro c hc
          exact (hex.head_not [] c (by simpa using hc)).1
      obtain ⟨e, he⟩ : ∃ e, Decimal.parseExponent? ex = some e := by
        rcases hex with rfl | hex
        · exact ⟨0, rfl⟩
        · exact hex.parses
      have hfraction := dropWhile_append hfs htail
      have hsome : (ds.isEmpty && fs.isEmpty) = false := by
        rcases hne with hne | hne <;> simp [hne]
      simp [Decimal.parse?, hsign, hwhole.1, hwhole.2, hfraction.1, hfraction.2, he, hsome]
  | @exponent ds ex hds hne hex =>
      have hsign : Number.takeSign (ds ++ ex) = (false, ds ++ ex) := by
        obtain ⟨d, ds, rfl⟩ := List.exists_cons_of_ne_nil hne
        exact takeSign_of_head (by rintro c ⟨⟩; exact .inl (hds d List.mem_cons_self))
      have hhead : ∀ c ∈ ex.head?, isDigit c = false ∧ c ≠ '.' := fun c hc =>
        hex.head_not [] c (by simpa using hc)
      have hwhole := dropWhile_append hds fun c hc => (hhead c hc).1
      obtain ⟨e, he⟩ := hex.parses
      obtain ⟨mark, cs, rfl, hmark⟩ := hex.head
      have hpoint : mark ≠ '.' := (hhead mark rfl).2
      simp [Decimal.parse?, hsign, hwhole.1, hwhole.2, he, hne, hpoint]

/-! ## Names -/

lemma wordLength_append {c : Char} {cs rest : List Char} (hc : isNameStart c = true)
    (hcs : ∀ d ∈ cs, isNamePart d = true) (hrest : ∀ d ∈ rest.head?, isNamePart d = false) :
    wordLength (c :: cs ++ rest) = (c :: cs).length := by
  rw [List.cons_append, wordLength, if_pos hc, spanLength_append hcs hrest, List.length_cons,
    Nat.add_comm]

lemma wordLength_of_head {cs : List Char} (h : ∀ c ∈ cs.head?, isNameStart c = false) :
    wordLength cs = 0 := by
  cases cs with
  | nil => rfl
  | cons c cs => simp [wordLength, h c rfl]

lemma keywordLength_of_head {cs : List Char} (h : ∀ c ∈ cs.head?, isNameStart c = false) :
    keywordLength cs = 0 := by
  rw [keywordLength, wordLength_of_head h]
  split_ifs <;> rfl

/-- Keywords are spelled like names. -/
lemma name_of_keyword {w : List Char} (h : String.ofList w ∈ keywords) :
    ∃ c cs, w = c :: cs ∧ isNameStart c = true ∧ ∀ d ∈ cs, isNamePart d = true := by
  have hall : ∀ k ∈ keywords, ∃ c cs, k.toList = c :: cs ∧ isNameStart c = true ∧
      ∀ d ∈ cs, isNamePart d = true := by
    have hletters : ∀ k ∈ keywords, k.toList.all isNameStart = true ∧ k.toList ≠ [] := by
      decide +kernel
    intro k hk
    obtain ⟨hall, hne⟩ := hletters k hk
    obtain ⟨c, cs, hsplit⟩ := List.exists_cons_of_ne_nil hne
    rw [hsplit, List.all_cons, Bool.and_eq_true, List.all_eq_true] at hall
    exact ⟨c, cs, hsplit, hall.1, fun d hd => isNamePart_of_isNameStart (hall.2 d hd)⟩
  obtain ⟨c, cs, hsplit, hname⟩ := hall _ h
  rw [String.toList_ofList] at hsplit
  exact ⟨c, cs, hsplit, hname⟩

/-- The longest word at the front of a text. -/
lemma take_wordLength {cs : List Char} {n : Nat} (h : wordLength cs = n + 1) :
    ∃ c w, cs.take (n + 1) = c :: w ∧ isNameStart c = true ∧ ∀ d ∈ w, isNamePart d = true := by
  cases cs with
  | nil => cases h
  | cons c cs =>
      simp only [wordLength] at h
      split_ifs at h with hc
      obtain ⟨w, rest, rfl, hw, -, hspan⟩ := exists_span isNamePart cs
      rw [hspan, Nat.add_comm] at h
      refine ⟨c, w, ?_, hc, hw⟩
      rw [← h, List.take_succ_cons, List.take_left]

/-! ## Operators and punctuation

Operators of two characters are tried before those of one, and a slash may start a comment.
-/

lemma commentLength_of_head {cs : List Char} (h : ∀ c ∈ cs.head?, c ≠ '/') :
    commentLength cs = 0 := by
  rw [commentLength.eq_def]
  split
  · exact absurd rfl (h '/' rfl)
  · exact absurd rfl (h '/' rfl)
  · rfl

lemma shortOperators_class : ∀ c ∈ shortOperators,
    isBlank c = false ∧ (isDigit c = false ∧ c ≠ '.') ∧ isNameStart c = false := by
  simp only [shortOperators, List.forall_mem_cons, List.not_mem_nil, false_implies, implies_true]
  decide

lemma punctuation_class : ∀ c ∈ punctuation, c ≠ '/' ∧ isBlank c = false ∧ isDigit c = false ∧
    isNameStart c = false ∧ c ∉ shortOperators := by
  simp only [punctuation, List.forall_mem_cons, List.not_mem_nil, false_implies, implies_true]
  decide

/-- A long operator does not start with a punctuation mark, and it starts with a short one only if
it ends with an equals sign. -/
lemma longOperators_class : ∀ o ∈ longOperators, isBlank o.1 = false ∧
    (isDigit o.1 = false ∧ o.1 ≠ '.') ∧ isNameStart o.1 = false ∧ o.1 ∉ punctuation ∧
    (o.1 ∈ shortOperators → o.2 = '=') ∧ o.2 ≠ '/' ∧ o.2 ≠ '*' := by
  decide

/-- A slash starts a comment only before a slash or a star. -/
lemma commentLength_slash {rest : List Char} (h : ∀ c ∈ rest.head?, c ≠ '/' ∧ c ≠ '*') :
    commentLength ('/' :: rest) = 0 := by
  rw [commentLength.eq_def]
  split
  · rename_i heq
    cases heq
    exact absurd rfl (h '/' rfl).1
  · rename_i heq
    cases heq
    exact absurd rfl (h '*' rfl).2
  · rfl

lemma commentLength_cons {c : Char} {rest : List Char}
    (h : ∀ d ∈ rest.head?, d ≠ '/' ∧ d ≠ '*') : commentLength (c :: rest) = 0 := by
  by_cases hc : c = '/'
  · rw [hc]
    exact commentLength_slash h
  · exact commentLength_of_head (by rintro d ⟨⟩; exact hc)

lemma operatorLength_short {c : Char} {rest : List Char} (hc : c ∈ shortOperators)
    (hrest : ∀ d ∈ rest.head?, d ≠ '=') : operatorLength (c :: rest) = 1 := by
  cases rest with
  | nil => simp [operatorLength, hc]
  | cons d rest =>
      have hshort : (c, d) ∉ longOperators := fun hlong =>
        hrest d rfl ((longOperators_class (c, d) hlong).2.2.2.2.1 hc)
      simp [operatorLength, hshort, hc]

lemma operatorLength_punct {c : Char} (hc : c ∈ punctuation) (rest : List Char) :
    operatorLength (c :: rest) = 0 := by
  have hshort := (punctuation_class c hc).2.2.2.2
  cases rest with
  | nil => simp [operatorLength, hshort]
  | cons d rest =>
      have hlong : (c, d) ∉ longOperators := fun h => (longOperators_class (c, d) h).2.2.2.1 hc
      simp [operatorLength, hlong, hshort]

/-! ## Scanning

For each kind, the rules in front of its own must take nothing.  They are excluded by the first
character, except where two rules share it.
-/

/-- The first rule that takes anything wins. -/
lemma scan?_of_first (before : List Lexeme) {after : List Lexeme} {l : Lexeme} {cs : List Char}
    {n : Nat}
    (hrules : lexicalRules = before ++ l :: after)
    (hbefore : ∀ m ∈ before, lexemeLength m cs = 0) (hl : lexemeLength l cs = n) (hn : n ≠ 0) :
    scan? cs = some (l, n) := by
  obtain ⟨k, rfl⟩ := Nat.exists_eq_succ_of_ne_zero hn
  rw [scan?, List.findSome?_eq_some_iff]
  refine ⟨before, l, after, hrules, ?_, fun m hm => ?_⟩
  · rw [hl]
  · rw [hbefore m hm]

lemma lexemeLength_of_scan? {cs : List Char} {l : Lexeme} {n : Nat} (h : scan? cs = some (l, n)) :
    ∃ m, n = m + 1 ∧ lexemeLength l cs = m + 1 := by
  obtain ⟨r, -, hr⟩ := List.exists_of_findSome?_eq_some h
  split at hr
  · cases hr
  · rename_i m hm
    cases hr
    exact ⟨m, rfl, hm⟩

/-- Where a name is scanned, the rule for keywords has taken nothing. -/
lemma keywordLength_of_scan? {cs : List Char} {n : Nat}
    (h : scan? cs = some (.token .ident, n)) : keywordLength cs = 0 := by
  cases hk : keywordLength cs with
  | zero => rfl
  | succ m =>
      simp only [scan?, lexicalRules, List.findSome?, lexemeLength, hk] at h
      cases hc : commentLength cs <;> cases hb : spanLength isBlank cs <;>
        cases hf : floatLength cs <;> cases hd : spanLength isDigit cs <;>
        simp [hc, hb, hf, hd] at h

/-- **What is scanned as a token is a word of its kind.** -/
lemma word_of_scan? {cs : List Char} {k : TokenKind} {n : Nat}
    (h : scan? cs = some (.token k, n)) : Word k (cs.take n) := by
  obtain ⟨m, rfl, hlen⟩ := lexemeLength_of_scan? h
  cases k with
  | float => exact word_of_floatLength hlen
  | int =>
      obtain ⟨w, rest, rfl, hw, -, hspan⟩ := exists_span isDigit cs
      rw [lexemeLength, hspan] at hlen
      rw [← hlen, List.take_left]
      refine .int hw ?_
      rintro rfl
      cases hlen
  | keyword =>
      simp only [lexemeLength, keywordLength] at hlen
      split_ifs at hlen with hword
      exact .keyword (hlen ▸ hword)
  | ident =>
      have hkeyword := keywordLength_of_scan? h
      rw [lexemeLength] at hlen
      obtain ⟨c, w, htake, hc, hw⟩ := take_wordLength hlen
      rw [keywordLength, hlen, htake] at hkeyword
      split_ifs at hkeyword with hnot
      rw [htake]
      exact .ident hc hw hnot
  | operator =>
      rw [lexemeLength] at hlen
      rcases cs with _ | ⟨c, _ | ⟨d, cs⟩⟩
      · cases hlen
      · simp only [operatorLength] at hlen
        split_ifs at hlen with hshort
        cases hlen
        exact .short hshort
      · simp only [operatorLength] at hlen
        split_ifs at hlen with hlong hshort
        · cases hlen
          exact .long hlong
        · cases hlen
          exact .short hshort
  | punct =>
      rw [lexemeLength] at hlen
      cases cs with
      | nil => cases hlen
      | cons c cs =>
          simp only [punctLength] at hlen
          split_ifs at hlen with hc
          cases hlen
          exact .punct hc
  | eof => cases hlen

/-- What is scanned as a token up to its end is a word. -/
lemma word_of_scan?_length {cs : List Char} {k : TokenKind}
    (h : scan? cs = some (.token k, cs.length)) : Word k cs := by
  have hword := word_of_scan? h
  rwa [List.take_length] at hword

section Whole

variable {c : Char} {w rest : List Char}

lemma lexemeLength_comment_of_ne (hc : c ≠ '/') (rest : List Char) :
    lexemeLength .comment (c :: rest) = 0 :=
  commentLength_of_head (by rintro d ⟨⟩; exact hc)

lemma lexemeLength_blank_of_false (hc : isBlank c = false) (rest : List Char) :
    lexemeLength .blank (c :: rest) = 0 :=
  spanLength_cons_of_false hc rest

lemma lexemeLength_float_of_ne (hc : isDigit c = false ∧ c ≠ '.') (rest : List Char) :
    lexemeLength (.token .float) (c :: rest) = 0 :=
  floatLength_of_head (by rintro d ⟨⟩; exact hc)

lemma lexemeLength_int_of_false (hc : isDigit c = false) (rest : List Char) :
    lexemeLength (.token .int) (c :: rest) = 0 :=
  spanLength_cons_of_false hc rest

lemma lexemeLength_keyword_of_false (hc : isNameStart c = false) (rest : List Char) :
    lexemeLength (.token .keyword) (c :: rest) = 0 :=
  keywordLength_of_head (by rintro d ⟨⟩; exact hc)

lemma lexemeLength_ident_of_false (hc : isNameStart c = false) (rest : List Char) :
    lexemeLength (.token .ident) (c :: rest) = 0 := by
  rw [lexemeLength]
  exact wordLength_of_head (by rintro d ⟨⟩; exact hc)

/-- Digits, points and letters start no comment and no blank. -/
lemma lexemeLength_of_number (hc : isNamePart c = true ∨ c = '.') (rest : List Char) :
    ∀ m ∈ [Lexeme.comment, .blank], lexemeLength m (c :: rest) = 0 := by
  have hslash : c ≠ '/' := by
    rcases hc with hc | rfl
    · exact ne_of_isNamePart hc (by decide)
    · decide
  have hblank : isBlank c = false := by
    rcases hc with hc | rfl
    · exact isBlank_of_isNamePart hc
    · decide
  simpa using ⟨lexemeLength_comment_of_ne hslash rest, lexemeLength_blank_of_false hblank rest⟩

lemma scan?_float (hlen : floatLength (w ++ rest) = w.length)
    (hw : ∃ c cs, w = c :: cs ∧ (isDigit c = true ∨ c = '.')) :
    scan? (w ++ rest) = some (.token .float, w.length) := by
  obtain ⟨c, cs, rfl, hc⟩ := hw
  exact scan?_of_first [.comment, .blank] rfl
    (lexemeLength_of_number (hc.imp_left isNamePart_of_isDigit) _) hlen (by simp)

lemma scan?_int (hds : Digits w) (hne : w ≠ []) (h : Apart .int w rest) :
    scan? (w ++ rest) = some (.token .int, w.length) := by
  have hjoin := h.number (.inr rfl)
  have hrest : ∀ c ∈ rest.head?, isDigit c = false ∧ c ≠ '.' := fun c hc =>
    ⟨(hjoin c hc).1.1, (hjoin c hc).2⟩
  have hexp : exponentLength rest = 0 := exponentLength_of_head fun c hc => (hjoin c hc).1.2
  have hfloat : floatLength (w ++ rest) = 0 := by
    rw [floatLength_no_dot hds hrest, hexp]
    simp
  obtain ⟨c, cs, rfl⟩ := List.exists_cons_of_ne_nil hne
  have hc := hds c List.mem_cons_self
  refine scan?_of_first [.comment, .blank, .token .float] rfl ?_
    (spanLength_append hds fun c hc => (hrest c hc).1) (by simp)
  have hskip := lexemeLength_of_number (.inl (isNamePart_of_isDigit hc)) (cs ++ rest)
  simp only [List.forall_mem_cons, List.not_mem_nil, false_implies, implies_true, and_true]
    at hskip ⊢
  exact ⟨hskip.1, hskip.2, hfloat⟩

/-- A name start is no start of a number. -/
lemma lexemeLength_of_name (hc : isNameStart c = true) (rest : List Char) :
    ∀ m ∈ [Lexeme.comment, .blank, .token .float, .token .int], lexemeLength m (c :: rest) = 0 := by
  have hdigit := isDigit_of_isNameStart hc
  have hpoint : c ≠ '.' := ne_of_isNamePart (isNamePart_of_isNameStart hc) (by decide)
  have hskip := lexemeLength_of_number (.inl (isNamePart_of_isNameStart hc)) rest
  simp only [List.forall_mem_cons, List.not_mem_nil, false_implies, implies_true, and_true]
    at hskip ⊢
  exact ⟨hskip.1, hskip.2, lexemeLength_float_of_ne ⟨hdigit, hpoint⟩ rest,
    lexemeLength_int_of_false hdigit rest⟩

lemma scan?_keyword (hw : String.ofList w ∈ keywords) (h : Apart .keyword w rest) :
    scan? (w ++ rest) = some (.token .keyword, w.length) := by
  obtain ⟨c, cs, rfl, hc, hcs⟩ := name_of_keyword hw
  refine scan?_of_first [.comment, .blank, .token .float, .token .int] rfl
    (lexemeLength_of_name hc _) ?_ (by simp)
  rw [lexemeLength, keywordLength, wordLength_append hc hcs h, List.take_left, if_pos hw]

lemma scan?_ident {cs : List Char} (hc : isNameStart c = true)
    (hcs : ∀ d ∈ cs, isNamePart d = true) (hnot : String.ofList (c :: cs) ∉ keywords)
    (h : Apart .ident (c :: cs) rest) :
    scan? (c :: cs ++ rest) = some (.token .ident, (c :: cs).length) := by
  have hlen := wordLength_append hc hcs h
  refine scan?_of_first [.comment, .blank, .token .float, .token .int, .token .keyword] rfl ?_
    hlen (by simp)
  have hskip := lexemeLength_of_name hc (cs ++ rest)
  simp only [List.forall_mem_cons, List.not_mem_nil, false_implies, implies_true, and_true]
    at hskip ⊢
  refine ⟨hskip.1, hskip.2.1, hskip.2.2.1, hskip.2.2.2, ?_⟩
  rw [lexemeLength, keywordLength, hlen, List.take_left, if_neg hnot]

lemma scan?_operator {n : Nat} (hcomment : commentLength (c :: rest) = 0)
    (hblank : isBlank c = false) (hdigit : isDigit c = false ∧ c ≠ '.')
    (hname : isNameStart c = false) (hlen : operatorLength (c :: rest) = n + 1) :
    scan? (c :: rest) = some (.token .operator, n + 1) := by
  refine scan?_of_first [.comment, .blank, .token .float, .token .int, .token .keyword,
    .token .ident] rfl ?_ hlen (by simp)
  simp only [List.forall_mem_cons, List.not_mem_nil, false_implies, implies_true, and_true]
  exact ⟨hcomment, lexemeLength_blank_of_false hblank rest, lexemeLength_float_of_ne hdigit rest,
    lexemeLength_int_of_false hdigit.1 rest, lexemeLength_keyword_of_false hname rest,
    lexemeLength_ident_of_false hname rest⟩

lemma scan?_punct (hc : c ∈ punctuation) (h : Apart .punct [c] rest) :
    scan? (c :: rest) = some (.token .punct, 1) := by
  obtain ⟨hslash, hblank, hdigit, hname, -⟩ := punctuation_class c hc
  have hfloat : floatLength (c :: rest) = 0 := by
    by_cases hpoint : c = '.'
    · subst hpoint
      have hempty : Digits [] := by simp [Digits]
      have hspan : spanLength isDigit rest = 0 :=
        spanLength_of_head fun d hd => by simpa [TokenKind.joins] using h d hd
      have hdot := floatLength_dot hempty rest
      rw [List.nil_append] at hdot
      rw [hdot, hspan]
      rfl
    · exact lexemeLength_float_of_ne ⟨hdigit, hpoint⟩ rest
  refine scan?_of_first [.comment, .blank, .token .float, .token .int, .token .keyword,
    .token .ident, .token .operator] rfl ?_ (by simp [lexemeLength, punctLength, hc]) (by simp)
  simp only [List.forall_mem_cons, List.not_mem_nil, false_implies, implies_true, and_true]
  exact ⟨lexemeLength_comment_of_ne hslash rest, lexemeLength_blank_of_false hblank rest, hfloat,
    lexemeLength_int_of_false hdigit rest, lexemeLength_keyword_of_false hname rest,
    lexemeLength_ident_of_false hname rest, operatorLength_punct hc rest⟩

end Whole

/-- **A word is scanned whole.**  The rules before its own take nothing, as its first character
shows or, for numbers, the character behind it. -/
lemma scan?_word {k : TokenKind} {w rest : List Char} (hw : Word k w) (h : Apart k w rest) :
    scan? (w ++ rest) = some (.token k, w.length) := by
  cases hw with
  | @point ds fs ex hds hfs hne hex =>
      refine scan?_float (floatLength_point hds hfs hne hex fun c hc => ?_) ?_
      · exact (h.number (.inl rfl) c hc).1
      · cases ds with
        | nil => exact ⟨_, _, rfl, .inr rfl⟩
        | cons d ds => exact ⟨_, _, rfl, .inl (hds d List.mem_cons_self)⟩
  | @exponent ds ex hds hne hex =>
      refine scan?_float (floatLength_exponent hds hne hex fun c hc => ?_) ?_
      · exact (h.number (.inl rfl) c hc).1.1
      · obtain ⟨d, ds, rfl⟩ := List.exists_cons_of_ne_nil hne
        exact ⟨_, _, rfl, .inl (hds d List.mem_cons_self)⟩
  | int hds hne => exact scan?_int hds hne h
  | keyword hkeyword => exact scan?_keyword hkeyword h
  | ident hc hcs hnot => exact scan?_ident hc hcs hnot h
  | @long c d hlong =>
      obtain ⟨hblank, hdigit, hname, -, -, hslash, hstar⟩ := longOperators_class (c, d) hlong
      refine scan?_operator (commentLength_cons ?_) hblank hdigit hname ?_
      · rintro e ⟨⟩
        exact ⟨hslash, hstar⟩
      · simp [operatorLength, hlong]
  | @short c hshort =>
      have hjoin : ∀ d ∈ rest.head?, d ≠ '=' ∧ d ≠ '/' ∧ d ≠ '*' := by
        intro d hd
        simpa [TokenKind.joins] using h d hd
      obtain ⟨hblank, hdigit, hname⟩ := shortOperators_class c hshort
      exact scan?_operator (commentLength_cons fun d hd => (hjoin d hd).2) hblank hdigit hname
        (operatorLength_short hshort fun d hd => (hjoin d hd).1)
  | punct hc => exact scan?_punct hc h

/-! ## Splitting a text

The lexer repeats the scan until the text is used up.
-/

lemma Word.ne_nil {k : TokenKind} {w : List Char} (h : Word k w) : w ≠ [] := by
  cases h with
  | point _ _ _ _ => simp
  | exponent _ hne _ => simp [hne]
  | int _ hne => exact hne
  | keyword h =>
      rintro rfl
      exact absurd h (by decide)
  | ident _ _ _ => simp
  | long _ => simp
  | short _ => simp
  | punct _ => simp

lemma Word.ne_eof {k : TokenKind} {w : List Char} (h : Word k w) : k ≠ .eof := by
  rintro rfl
  cases h

/-- A word at the front of a text becomes the first token. -/
lemma lexFrom_word {k : TokenKind} {w rest : List Char} (hw : Word k w) (h : Apart k w rest)
    (pos : Position) :
    lexFrom (w ++ rest) pos = (lexFrom rest (pos.afterAll w)).cons (.token k) w pos := by
  have hscan := scan?_word hw h
  obtain ⟨c, cs, rfl⟩ := List.exists_cons_of_ne_nil hw.ne_nil
  rw [List.cons_append] at hscan ⊢
  rw [lexFrom, hscan]
  simp

/-- Blanks are passed over, whatever stands behind them. -/
lemma lexFrom_blanks {ws : List Char} (hws : ∀ c ∈ ws, isBlank c = true) (rest : List Char)
    (pos : Position) : lexFrom (ws ++ rest) pos = lexFrom rest (pos.afterAll ws) := by
  have hrun : ∀ {ws rest : List Char}, (∀ c ∈ ws, isBlank c = true) →
      (∀ d ∈ rest.head?, isBlank d = false) → ∀ pos : Position,
        lexFrom (ws ++ rest) pos = lexFrom rest (pos.afterAll ws) := by
    intro ws rest hws hrest pos
    cases ws with
    | nil => rfl
    | cons c ws =>
        have hslash : c ≠ '/' := by
          rintro rfl
          exact absurd (hws _ List.mem_cons_self) (by decide)
        have hscan : scan? (c :: ws ++ rest) = some (.blank, ws.length + 1) :=
          scan?_of_first [.comment] rfl
            (by simpa using lexemeLength_comment_of_ne hslash (ws ++ rest))
            (spanLength_append hws hrest) (Nat.succ_ne_zero _)
        rw [List.cons_append] at hscan ⊢
        rw [lexFrom, hscan]
        simp [Lexed.cons]
  -- the blanks that `rest` may start with belong to the same run
  obtain ⟨bs, rest, rfl, hbs, hrest, -⟩ := exists_span isBlank rest
  rw [← List.append_assoc, hrun (List.forall_mem_append.mpr ⟨hws, hbs⟩) hrest, hrun hbs hrest,
    Position.afterAll_append]

/-- A token whose text is a word of its kind. -/
def Token.Lexical (t : Token) : Prop := Word t.kind t.text.toList

/-- The kind of the word that a text starts with; a text without one counts as the end. -/
def wordKind (s : String) : TokenKind :=
  match scan? s.toList with
  | some (.token k, _) => k
  | _ => .eof

/-- The text of a word decides its kind. -/
lemma Token.Lexical.kind_eq {t : Token} (h : t.Lexical) : t.kind = wordKind t.text := by
  have hscan : scan? (t.text.toList ++ []) = some (.token t.kind, t.text.toList.length) :=
    scan?_word h (by simp [Apart])
  rw [List.append_nil] at hscan
  rw [wordKind, hscan]

/-- Up to its end a text is split into words. -/
lemma lexFrom_stop_none {cs : List Char} {pos : Position} (h : (lexFrom cs pos).stop = none) :
    ∃ ts last, (lexFrom cs pos).tokens = ts ++ [last] ∧ last.kind = .eof ∧ last.text = "" ∧
      ∀ t ∈ ts, t.Lexical := by
  induction cs, pos using lexFrom.induct with
  | case1 pos =>
      rw [lexFrom]
      exact ⟨[], _, rfl, rfl, rfl, by simp⟩
  | case2 pos c cs hscan =>
      rw [lexFrom, hscan] at h
      cases h
  | case3 pos c cs lexeme n hscan text ih =>
      rw [lexFrom, hscan] at h ⊢
      have hstop : (lexFrom (cs.drop (n - 1)) (pos.afterAll text)).stop = none := by
        cases lexeme <;> exact h
      obtain ⟨ts, last, htokens, hkind, htext, hts⟩ := ih hstop
      cases lexeme with
      | comment => exact ⟨ts, last, htokens, hkind, htext, hts⟩
      | blank => exact ⟨ts, last, htokens, hkind, htext, hts⟩
      | token k =>
          refine ⟨⟨k, String.ofList text, pos⟩ :: ts, last, ?_, hkind, htext, ?_⟩
          · simp only [Lexed.cons, List.cons_append]
            rw [← htokens]
          · obtain ⟨m, rfl, -⟩ := lexemeLength_of_scan? hscan
            have hword := word_of_scan? hscan
            rw [List.take_succ_cons] at hword
            refine List.forall_mem_cons.mpr ⟨?_, hts⟩
            simpa [Token.Lexical, text] using hword

/-- **A text is split into words and the mark of its end.** -/
lemma lex_ok {cs : List Char} {tokens : List Token} (h : lex cs = .ok tokens) :
    ∃ ts last, tokens = ts ++ [last] ∧ last.kind = .eof ∧ last.text = "" ∧ ∀ t ∈ ts, t.Lexical := by
  simp only [lex] at h
  split at h
  · rename_i hstop
    cases h
    exact lexFrom_stop_none hstop
  · cases h

end Cellular
