import Cellular.Proofs.Source.Words
import Cellular.Yaml.Printer
import Mathlib.Data.List.Basic

/-!
# Scalars that are read back

What is written of a text, without quotes, in single quotes or as a block of lines, is read as that
text.  Reading goes on to the start of the next line where it has to see how far that is indented.

* `Fresh` says where reading can go on.
* `plainScalar_key` and `plainScalar_line` are about words without quotes.
* `quotedScalar_single` is about single quotes.
* `blockScalar_lines` is about blocks of lines, whatever the text starts and ends with.

A scalar ends where the scanner sees that it does, and that may be lines later: blank lines and
indentation are read before the next token shows that the scalar is over.  So the lemmas say both
what is read and where reading stands afterwards.  Blocks of lines are the hardest, as the breaks at
their end belong to the text or not according to a sign in the header, and the indentation of the
first line is guessed unless the header gives it.  All of these choices are made by the printer in
such a way that the text comes back.
-/

namespace Cellular.Yaml

variable {r : List Char} {d : Char} {i ln c n : Nat}

/-! ## Places

A place is the rest of the text with an index, a line and a column.
-/

namespace Point

@[simp] lemma skip_cons : (⟨d :: r, i, ln, c⟩ : Point).skip = ⟨r, i + 1, ln, c + 1⟩ := rfl

@[simp] lemma atBreak_cons : (⟨d :: r, i, ln, c⟩ : Point).atBreak = isBreak d := rfl

@[simp] lemma atGap_cons : (⟨d :: r, i, ln, c⟩ : Point).atGap = isGapChar d := rfl

@[simp] lemma startsWith_cons {e : Char} :
    (⟨d :: r, i, ln, c⟩ : Point).startsWith e = decide (d = e) := by
  simp [startsWith]

@[simp] lemma skipMany_append {cs : List Char} :
    (⟨cs ++ r, i, ln, c⟩ : Point).skipMany cs.length = ⟨r, i + cs.length, ln, c + cs.length⟩ := by
  simp [skipMany]

end Point

/-- A text that starts with no white space and with no comment. -/
def Fresh (cs : List Char) : Prop :=
  ∀ c ∈ cs.head?, isGapChar c = false ∧ isBreak c = false ∧ c ≠ '#'

lemma Fresh.nil : Fresh [] := fun _ h => nomatch h

lemma Fresh.cons (h : isGapChar d = false ∧ isBreak d = false ∧ d ≠ '#') : Fresh (d :: r) := by
  rintro e ⟨⟩
  exact h

lemma Fresh.atBreak (hr : Fresh r) : (⟨r, i, ln, c⟩ : Point).atBreak = false := by
  cases r with
  | nil => rfl
  | cons d r => exact (hr d rfl).2.1

lemma Fresh.startsWith (hr : Fresh r) : (⟨r, i, ln, c⟩ : Point).startsWith '#' = false := by
  cases r with
  | nil => rfl
  | cons d r => simpa using (hr d rfl).2.2

/-- Blanks end where something fresh starts. -/
lemma Fresh.takeWhile {p : Char → Bool} (hr : Fresh r) (hblank : p ' ' = true)
    (hp : ∀ c, p c = true → isGapChar c = true) :
    (List.replicate n ' ' ++ r).takeWhile p = List.replicate n ' ' := by
  refine (dropWhile_append (fun c hc => ?_) fun c hc => ?_).1
  · rwa [List.eq_of_mem_replicate hc]
  · by_contra h
    rw [Bool.not_eq_false] at h
    exact absurd (hp c h) (by simp [(hr c hc).1])

/-! ## White space between scalars

A gap is read with fuel for its characters.
-/

variable {tabs : Option Nat} {fuel : Nat}

lemma readGap_indentation {g : Gap} (hg : g.breaks ≠ []) (hr : Fresh r) :
    ∀ {n fuel i c : Nat}, n ≤ fuel →
      readGap tabs fuel g ⟨List.replicate n ' ' ++ r, i, ln, c⟩ = some (g, ⟨r, i + n, ln, c + n⟩)
  | 0, 0, _, _, _ => rfl
  | 0, fuel + 1, i, c, _ => by
      rw [readGap, List.replicate_zero, List.nil_append, if_neg (by simp [hr.atBreak])]
      cases r with
      | nil => rfl
      | cons d r => simp [(hr d rfl).1]
  | n + 1, fuel + 1, i, c, h => by
      have hgap : isGapChar ' ' = true := rfl
      have hbreaks : g.breaks.isEmpty = false := by simpa using hg
      rw [List.replicate_succ, List.cons_append, readGap, if_neg (by simp [isBreak])]
      simpa [hgap, hbreaks, Nat.add_assoc, Nat.add_comm 1 n]
        using readGap_indentation hg hr (i := i + 1) (c := c + 1) (Nat.le_of_succ_le_succ h)

/-- A line break is read together with the indentation behind it. -/
lemma readGap_line (hr : Fresh r) (hfuel : n < fuel) :
    readGap tabs fuel {} ⟨'\n' :: (List.replicate n ' ' ++ r), i, ln, c⟩
      = some ({ breaks := ['\n'] }, ⟨r, i + 1 + n, ln + 1, n⟩) := by
  obtain ⟨fuel, rfl⟩ := Nat.exists_eq_add_of_lt hfuel
  rw [readGap, if_pos (by simp [isBreak])]
  have h : readGap tabs (n + fuel) { breaks := ['\n'] }
      ⟨List.replicate n ' ' ++ r, i + 1, ln + 1, 0⟩
      = some ({ breaks := ['\n'] }, ⟨r, i + 1 + n, ln + 1, 0 + n⟩) :=
    readGap_indentation (by simp) hr (by omega)
  rwa [Nat.zero_add] at h

/-- Blanks inside a line are read as they are. -/
lemma readGap_blanks {more : List Char}
    (hmore : ∀ c ∈ more.head?, isGapChar c = false ∧ isBreak c = false) :
    ∀ {gaps : List Char} {g : Gap} {fuel i c : Nat}, (∀ c ∈ gaps, isGapChar c = true) →
      g.breaks = [] → gaps.length ≤ fuel →
      readGap tabs fuel g ⟨gaps ++ more, i, ln, c⟩
        = some ({ g with blanks := g.blanks ++ gaps },
            ⟨more, i + gaps.length, ln, c + gaps.length⟩)
  | [], g, 0, _, _, _, _, _ => by simp [readGap]
  | [], g, fuel + 1, _, _, _, _, _ => by
      cases more with
      | nil => simp [readGap, Point.atBreak]
      | cons d more => simp [readGap, (hmore d rfl).1, (hmore d rfl).2]
  | gap :: gaps, g, fuel + 1, i, c, hgaps, hg, h => by
      rw [List.forall_mem_cons] at hgaps
      have hbreak : isBreak gap = false := by
        rcases (by simpa [isGapChar] using hgaps.1 : gap = ' ' ∨ gap = '\t') with rfl | rfl <;> rfl
      rw [List.cons_append, readGap, if_neg (by simp [hbreak])]
      simpa [hgaps.1, hg, Nat.add_assoc, Nat.add_comm 1]
        using readGap_blanks (g := { g with blanks := g.blanks ++ [gap] }) hmore hgaps.2 hg
          (i := i + 1) (c := c + 1) (Nat.le_of_succ_le_succ h)

/-! ## Words

Letters and digits start no mark, and end no scalar.
-/

/-- The characters of a text are checked one after the other, and not all that there are. -/
instance decidableForallMem {p : Char → Prop} [DecidablePred p] (cs : List Char) :
    Decidable (∀ c ∈ cs, p c) :=
  List.decidableBAll p cs

/-- A word of letters and digits. -/
def IsWord (w : List Char) : Prop := w ≠ [] ∧ ∀ c ∈ w, c.isAlphanum = true

instance (w : List Char) : Decidable (IsWord w) := inferInstanceAs (Decidable (_ ∧ _))

lemma ne_of_isAlphanum {e : Char} (hd : d.isAlphanum = true) (he : e.isAlphanum = false) :
    d ≠ e := by
  rintro rfl
  rw [hd] at he
  exact nomatch he

lemma isGapChar_of_isAlphanum (hd : d.isAlphanum = true) : isGapChar d = false := by
  simp [isGapChar, ne_of_isAlphanum hd]

lemma isBreak_of_isAlphanum (hd : d.isAlphanum = true) : isBreak d = false := by
  have h : ∀ e : Char, e.isAlphanum = false → d ≠ e := fun e => ne_of_isAlphanum hd
  simp [isBreak, h '\n' rfl, h '\r' rfl, h (Char.ofNat 0x85) rfl, h (Char.ofNat 0x2028) rfl,
    h (Char.ofNat 0x2029) rfl]

lemma plainPart_append {w more : List Char} (hw : ∀ c ∈ w, c.isAlphanum = true) :
    plainPart false (w ++ more) = w ++ plainPart false more := by
  induction w with
  | nil => rfl
  | cons d w ih =>
      rw [List.forall_mem_cons] at hw
      simp [plainPart, isGapChar_of_isAlphanum hw.1, isBreak_of_isAlphanum hw.1,
        ne_of_isAlphanum hw.1, ih hw.2]

/-- A word starts no mark of a document. -/
lemma IsWord.starts {w more : List Char} (hw : IsWord w) {p : Point} (hp : p.rest = w ++ more) :
    (p.atDocumentMark || p.startsWith '#') = false := by
  obtain ⟨hne, hw⟩ := hw
  obtain ⟨d, w, rfl⟩ := List.exists_cons_of_ne_nil hne
  have hd := hw d List.mem_cons_self
  have hdash := ne_of_isAlphanum hd (e := '-') rfl
  have hdot := ne_of_isAlphanum hd (e := '.') rfl
  have hmark := ne_of_isAlphanum hd (e := '#') rfl
  simp [Point.atDocumentMark, Point.startsWith, hp, hmark]
  intro _
  split <;> simp_all

/-- The first part of a scalar that starts with a word is the word, if it ends there. -/
lemma plainScalar_word {indent : Int} {w more : List Char} (hw : IsWord w)
    (hmore : plainPart false more = []) :
    plainScalar false indent ⟨w ++ more, i, ln, c⟩
      = if (⟨more, i + w.length, ln, c + w.length⟩ : Point).atGap
          || (⟨more, i + w.length, ln, c + w.length⟩ : Point).atBreak then
        (readGap (some indent.toNat) more.length {} ⟨more, i + w.length, ln, c + w.length⟩).bind
          fun g =>
            if (g.2.column : Int) < indent then some (w, !g.1.breaks.isEmpty, g.2)
            else plainParts false indent (w.length + more.length) w g.1 g.2
      else some (w, false, ⟨more, i + w.length, ln, c + w.length⟩) := by
  have hpart : plainPart false (w ++ more) = w := by
    rw [plainPart_append hw.2, hmore, List.append_nil]
  have hskip : (⟨w ++ more, i, ln, c⟩ : Point).skipMany w.length
      = ⟨more, i + w.length, ln, c + w.length⟩ := Point.skipMany_append
  rw [plainScalar, plainParts, hw.starts rfl, hpart, List.length_append]
  obtain ⟨d, w', rfl⟩ := List.exists_cons_of_ne_nil hw.1
  simp only [hskip, Gap.folded, List.append_nil, List.nil_append, Bool.false_eq_true, if_false,
    Bool.not_false, Bool.true_and, decide_eq_true_eq]
  cases readGap (some indent.toNat) more.length {}
    ⟨more, i + (d :: w').length, ln, c + (d :: w').length⟩ <;> rfl

/-- **A word before a colon is read.** -/
lemma plainScalar_key {indent : Int} {w more : List Char} (hw : IsWord w)
    (hmore : startsBlank more = true) :
    plainScalar false indent ⟨w ++ ':' :: more, i, ln, c⟩
      = some (w, false, ⟨':' :: more, i + w.length, ln, c + w.length⟩) := by
  rw [plainScalar_word hw (by simp [plainPart, hmore])]
  simp [isGapChar, isBreak]

/-- **A word at the end of a line is read**, if the next line is indented by less. -/
lemma plainScalar_line {indent : Int} {w : List Char} (hw : IsWord w) (hr : Fresh r)
    (hn : (n : Int) < indent) :
    plainScalar false indent ⟨w ++ '\n' :: (List.replicate n ' ' ++ r), i, ln, c⟩
      = some (w, true, ⟨r, i + w.length + 1 + n, ln + 1, n⟩) := by
  rw [plainScalar_word hw (by simp [plainPart, isBreak]), if_pos (by simp [isBreak]),
    readGap_line hr (by rw [List.length_cons, List.length_append, List.length_replicate]; omega)]
  simp [hn]

/-! ## Single quotes

Only the quote itself is special, and it is doubled.  A text is read in parts, with blanks between
them.
-/

lemma quotedPart_append {part more : List Char} {acc : List Char}
    (hpart : ∀ c ∈ part, isGapChar c = false ∧ isBreak c = false) {fuel : Nat} :
    quotedPart false (fuel + part.length) acc ⟨part.flatMap doubledQuote ++ more, i, ln, c⟩
      = quotedPart false fuel (acc ++ part) ⟨more, i + (part.flatMap doubledQuote).length, ln,
          c + (part.flatMap doubledQuote).length⟩ := by
  induction part generalizing acc i c with
  | nil => simp
  | cons d part ih =>
      rw [List.forall_mem_cons] at hpart
      rw [List.length_cons, ← Nat.add_assoc, quotedPart, List.flatMap_cons]
      by_cases hquote : d = '\''
      · subst hquote
        simp [doubledQuote, isGapChar, isBreak, ih hpart.2, Point.skipMany, Nat.add_assoc,
          Nat.add_comm 2]
      · simp [doubledQuote, hquote, hpart.1, ih hpart.2, Nat.add_assoc, Nat.add_comm 1]

/-- A part ends at the closing quote. -/
lemma quotedPart_closed {more acc : List Char} (hmore : more.head? ≠ some '\'') :
    quotedPart false (fuel + 1) acc ⟨'\'' :: more, i, ln, c⟩
      = some (acc, .closed ⟨more, i + 1, ln, c + 1⟩) := by
  rw [quotedPart]
  simp [isGapChar, isBreak, Point.startsWith, hmore]

/-- A part ends at a blank. -/
lemma quotedPart_gap {more acc : List Char} (hd : isGapChar d = true) :
    quotedPart false (fuel + 1) acc ⟨d :: more, i, ln, c⟩
      = some (acc, .gap ⟨d :: more, i, ln, c⟩) := by
  rw [quotedPart]
  simp [hd]

/-- What is written of a text in single quotes, behind the opening one. -/
def singleQuoted (cs : List Char) : List Char := cs.flatMap doubledQuote ++ ['\'']

lemma flatMap_doubledQuote_of_gaps {gaps : List Char} (h : ∀ c ∈ gaps, isGapChar c = true) :
    gaps.flatMap doubledQuote = gaps := by
  induction gaps with
  | nil => rfl
  | cons d gaps ih =>
      rw [List.forall_mem_cons] at h
      have hquote : d ≠ '\'' := by
        rintro rfl
        exact nomatch h.1
      simp [doubledQuote, hquote, ih h.2]

lemma singleQuoted_append {part tail : List Char} :
    singleQuoted (part ++ tail) = part.flatMap doubledQuote ++ singleQuoted tail := by
  simp [singleQuoted]

lemma length_le_flatMap_doubledQuote (cs : List Char) :
    cs.length ≤ (cs.flatMap doubledQuote).length := by
  induction cs with
  | nil => exact Nat.le_refl 0
  | cons d cs ih =>
      have hone : 1 ≤ (doubledQuote d).length := by
        rw [doubledQuote]
        split <;> simp
      simp only [List.flatMap_cons, List.length_append, List.length_cons]
      omega

lemma head?_singleQuoted {cs more : List Char} :
    (singleQuoted cs ++ more).head? = some (cs.head?.getD '\'') := by
  cases cs with
  | nil => rfl
  | cons d cs =>
      simp only [singleQuoted, List.flatMap_cons, doubledQuote]
      split <;> rfl

/-- The text is read part by part, a part and the blanks behind it at a time. -/
lemma quotedParts_single {more : List Char} (hmore : more.head? ≠ some '\'') :
    ∀ {fuel : Nat} {cs acc : List Char} {i c : Nat}, cs.length < fuel →
      (∀ c ∈ cs, isBreak c = false) → 0 < c →
      quotedParts false fuel acc ⟨singleQuoted cs ++ more, i, ln, c⟩
        = some (acc ++ cs, ⟨more, i + (singleQuoted cs).length, ln,
            c + (singleQuoted cs).length⟩)
  | fuel + 1, cs, acc, i, c, hfuel, hbreaks, hc => by
      have hmark : (⟨singleQuoted cs ++ more, i, ln, c⟩ : Point).atDocumentMark = false := by
        simp [Point.atDocumentMark, Nat.ne_of_gt hc]
      obtain ⟨part, tail, rfl, hpart, htail, -⟩ := exists_span (fun c => !isGapChar c) cs
      have hpart' : ∀ c ∈ part, isGapChar c = false ∧ isBreak c = false := fun c hc =>
        ⟨by simpa using hpart c hc, hbreaks c (List.mem_append_left _ hc)⟩
      obtain ⟨k, hk⟩ : ∃ k, (singleQuoted (part ++ tail) ++ more).length + 1
          = k + 1 + part.length := by
        have hle := length_le_flatMap_doubledQuote part
        refine ⟨(singleQuoted (part ++ tail) ++ more).length - part.length, ?_⟩
        simp only [singleQuoted_append, List.length_append]
        omega
      rw [quotedParts, hmark, if_neg Bool.false_ne_true, hk, singleQuoted_append,
        List.append_assoc, quotedPart_append hpart']
      rcases tail with _ | ⟨gap, tail⟩
      · rw [show singleQuoted [] ++ more = '\'' :: more from rfl, quotedPart_closed hmore]
        simp [singleQuoted, Nat.add_assoc]
      · -- the blanks are read up to a character that is part of the text or closes it
        obtain ⟨gaps, tail', heq, hgaps, htail', -⟩ := exists_span isGapChar (gap :: tail)
        have hwritten : singleQuoted (gap :: tail) = gaps ++ singleQuoted tail' := by
          rw [heq, singleQuoted_append, flatMap_doubledQuote_of_gaps hgaps]
        rcases gaps with _ | ⟨g, gaps⟩
        · have hgap : isGapChar gap = true := by simpa using htail gap rfl
          rw [List.nil_append] at heq
          exact absurd hgap (by simp [htail' gap (by rw [← heq]; rfl)])
        · have hfirst : ∀ c ∈ (singleQuoted tail' ++ more).head?,
              isGapChar c = false ∧ isBreak c = false := by
            rw [head?_singleQuoted]
            rintro e ⟨⟩
            cases tail' with
            | nil => exact ⟨rfl, rfl⟩
            | cons d tail' => exact ⟨htail' d rfl, hbreaks d (by rw [heq]; simp)⟩
          rw [hwritten, List.append_assoc, List.cons_append, quotedPart_gap (hgaps g (by simp))]
          simp only
          rw [← List.cons_append, readGap_blanks hfirst hgaps rfl (by simp)]
          simp only [Gap.folded, List.nil_append]
          rw [heq, List.length_append, List.length_append] at hfuel
          rw [quotedParts_single hmore (by simp at hfuel; omega)
            (fun d hd => hbreaks d (by rw [heq]; simp [hd])) (by omega), heq]
          simp [Nat.add_assoc, Nat.add_comm 1]

/-- **A text in single quotes is read back**, behind its opening quote. -/
lemma quotedScalar_single {cs more : List Char} (hmore : more.head? ≠ some '\'')
    (hcs : ∀ c ∈ cs, isBreak c = false) (hc : 0 < c) :
    quotedScalar false ⟨singleQuoted cs ++ more, i, ln, c⟩
      = some (cs, ⟨more, i + (singleQuoted cs).length, ln, c + (singleQuoted cs).length⟩) := by
  have hfuel : cs.length < (singleQuoted cs ++ more).length + 1 := by
    have hle := length_le_flatMap_doubledQuote cs
    simp only [singleQuoted, List.length_append]
    omega
  rw [quotedScalar, quotedParts_single hmore hfuel hcs hc, List.nil_append]

/-! ## Lines

A text is a list of lines, each with its break; some breaks are read as others, and the printer does
not use a block for texts with these.
-/

/-- A line, indented by `n` unless it is empty, and its break. -/
def Line.laid (n : Nat) (l : Line) : List Char :=
  if l.text.isEmpty then [l.ending] else List.replicate n ' ' ++ (l.text.toList ++ [l.ending])

/-- The breaks that are read as they are. -/
def plainBreaks : List Char := ['\n', Char.ofNat 0x2028, Char.ofNat 0x2029]

/-- A line of a text: it ends at its first break, which is read as it is. -/
structure Line.Whole (l : Line) : Prop where
  text : ∀ c ∈ l.text.toList, isBreak c = false
  ending : l.ending ∈ plainBreaks

section Blocks

variable {l : Line} {ls : List Line} {more : List Char}

lemma Line.Whole.isBreak (h : l.Whole) : Yaml.isBreak l.ending = true := by
  have hall : ∀ e ∈ plainBreaks, Yaml.isBreak e = true := by decide
  exact hall _ h.ending

lemma Line.Whole.ne_space (h : l.Whole) : l.ending ≠ ' ' := by
  have hall : ∀ e ∈ plainBreaks, e ≠ ' ' := by decide
  exact hall _ h.ending

lemma Line.Whole.skipBreak (h : l.Whole) :
    (⟨l.ending :: more, i, ln, c⟩ : Point).skipBreak = ⟨more, i + 1, ln + 1, 0⟩ := by
  have hreturn : ∀ e ∈ plainBreaks, e ≠ '\r' := by decide
  rw [Point.skipBreak.eq_def]
  split
  · rename_i heq
    exact absurd (List.cons.inj heq).1 (hreturn _ h.ending)
  · rename_i heq
    obtain ⟨rfl, rfl⟩ := List.cons.inj heq
    rw [if_pos h.isBreak]
  · rename_i heq
    exact nomatch heq

lemma Line.Whole.breakText (h : l.Whole) :
    (⟨l.ending :: more, i, ln, c⟩ : Point).breakText = [l.ending] := by
  have hall : ∀ e ∈ plainBreaks, (⟨[e], 0, 0, 0⟩ : Point).breakText = [e] := by decide
  exact hall _ h.ending

/-! ### Between two lines -/

variable {breaks : List Char} {w : Nat}

/-- An empty line is read as its break. -/
lemma blockBreaks_empty (h : l.Whole) :
    blockBreaks (some n) (fuel + 1) breaks w ⟨l.ending :: more, i, ln, 0⟩
      = blockBreaks (some n) fuel (breaks ++ [l.ending]) w ⟨more, i + 1, ln + 1, 0⟩ := by
  have hnone : (l.ending :: more).takeWhile (fun c => decide (c = ' ')) = [] := by
    simp [h.ne_space]
  have htab : (l.ending = '\t') = False := by
    have hall : ∀ e ∈ plainBreaks, e ≠ '\t' := by decide
    exact eq_false (hall _ h.ending)
  rw [blockBreaks]
  simp [hnone, Point.skipMany, htab, h.isBreak, h.breakText, h.skipBreak]

/-- Where a line starts, its indentation is read. -/
lemma blockBreaks_indented (hmore : ∀ c ∈ more.head?, isBreak c = false) :
    blockBreaks (some n) (fuel + 1) breaks w ⟨List.replicate n ' ' ++ more, i, ln, 0⟩
      = some (breaks, max w n, ⟨more, i + n, ln, n⟩) := by
  have hskip : (⟨List.replicate n ' ' ++ more, i, ln, 0⟩ : Point).skipMany n
      = ⟨more, i + n, ln, n⟩ := by
    simp [Point.skipMany]
  have hbreak : (⟨more, i + n, ln, n⟩ : Point).atBreak = false := by
    cases more with
    | nil => rfl
    | cons d more => exact hmore d rfl
  rw [blockBreaks]
  simp [hskip, hbreak]

/-- What is indented by less ends the lines. -/
lemma blockBreaks_end {m : Nat} (hm : m < n) (hr : Fresh r) :
    blockBreaks (some n) (fuel + 1) breaks w ⟨List.replicate m ' ' ++ r, i, ln, 0⟩
      = some (breaks, max w m, ⟨r, i + m, ln, m⟩) := by
  have hblanks := hr.takeWhile (n := m) (p := fun c => decide (c = ' ')) (by simp)
    (fun c hc => by simp_all [isGapChar])
  have hskip : (⟨List.replicate m ' ' ++ r, i, ln, 0⟩ : Point).skipMany m
      = ⟨r, i + m, ln, m⟩ := by
    simp [Point.skipMany]
  have htab : (⟨r, i + m, ln, m⟩ : Point).startsWith '\t' = false := by
    cases r with
    | nil => rfl
    | cons d r =>
        have hd := (hr d rfl).1
        simp_all [isGapChar]
  rw [blockBreaks]
  simp [hblanks, Nat.min_eq_left hm.le, hskip, htab, hr.atBreak]

/-! ### Line by line -/

/-- All of the text that was read. -/
def BlockText.soFar (t : BlockText) : List Char := t.text ++ t.lastBreak ++ t.breaks

/-- Lines are read behind a text; what is left open behind them are the breaks behind the last one
that is not empty. -/
structure BlockText.Extends (t t' : BlockText) (ls : List Line) : Prop where
  soFar : t'.soFar = t.soFar ++ ls.flatMap (Line.laid 0)
  last : ∀ l ∈ ls.getLast?, l.text.isEmpty = false → t'.breaks = [] ∧ t'.lastBreak = [l.ending]

variable {t : BlockText} {f : Nat}

/-- One line is read up to its break. -/
lemma blockLines_line (h : l.Whole) (more : List Char) (ln : Nat) :
    ∃ blank, blockLines true n (f + 1) t ⟨l.text.toList ++ l.ending :: more, i, ln, n⟩
      = (blockBreaks (some n) (more.length + 2) [] 0
          ⟨more, i + l.text.toList.length + 1, ln + 1, 0⟩).bind fun (breaks, _, q) =>
        blockLines true n f ⟨t.soFar ++ l.text.toList, [l.ending], breaks, blank⟩ q := by
  have hline : (l.text.toList ++ l.ending :: more).takeWhile (fun c => !isBreak c)
      = l.text.toList :=
    (dropWhile_append (fun c hc => by simp [h.text c hc])
      (by rintro c ⟨⟩; simp [h.isBreak])).1
  have hend : (⟨l.text.toList ++ l.ending :: more, i, ln, n⟩ : Point).atEnd = false := by
    simp [Point.atEnd]
  refine ⟨(⟨l.text.toList ++ l.ending :: more, i, ln, n⟩ : Point).atGap, ?_⟩
  rw [blockLines]
  simp only [hline, hend, Point.skipMany_append, h.skipBreak, h.breakText]
  cases blockBreaks (some n) (more.length + 2) [] 0
      ⟨more, i + l.text.toList.length + 1, ln + 1, 0⟩ <;>
    simp [BlockText.soFar]

lemma length_le_laid (n : Nat) (ls : List Line) :
    ls.length ≤ (ls.flatMap (Line.laid n)).length := by
  induction ls with
  | nil => exact Nat.le_refl 0
  | cons l ls ih =>
      have hone : 1 ≤ (l.laid n).length := by
        rw [Line.laid]
        split
        · simp
        · simp
          omega
      simp only [List.flatMap_cons, List.length_append, List.length_cons]
      omega

/-- **Lines are read one after the other**, first what stands before a line and then the line. -/
lemma exists_blockLines {m : Nat} (hm : m < n) (hr : Fresh r) :
    ∀ {ls : List Line} {t : BlockText} (fuel : Nat) {i : Nat} (ln : Nat) {w : Nat}
      {f : Point → Nat},
      (∀ l ∈ ls, l.Whole) → ls.length < fuel →
      (∀ q : Point, q.rest.length
          ≤ (ls.flatMap (Line.laid n) ++ (List.replicate m ' ' ++ r)).length →
        q.rest.length ≤ f q) →
      ∃ t' j, ((blockBreaks (some n) fuel t.breaks w
          ⟨ls.flatMap (Line.laid n) ++ (List.replicate m ' ' ++ r), i, ln, 0⟩).bind
            fun (breaks, _, q) => blockLines true n (f q) { t with breaks } q)
          = some (t', ⟨r, j, ln + ls.length, m⟩) ∧ t.Extends t' ls ∧ (ls = [] → t' = t)
  | [], t, fuel + 1, i, ln, w, f, _, _, _ => by
      refine ⟨t, i + m, ?_, ⟨by simp, fun l hl => nomatch hl⟩, fun _ => rfl⟩
      rw [List.flatMap_nil, List.nil_append, blockBreaks_end hm hr, Option.bind_some]
      show blockLines true n (f ⟨r, i + m, ln, m⟩) t ⟨r, i + m, ln, m⟩ = some (t, ⟨r, i + m, ln, m⟩)
      cases f ⟨r, i + m, ln, m⟩ with
      | zero => rfl
      | succ f => simp [blockLines, hm.ne]
  | l :: ls, t, fuel + 1, i, ln, w, f, hls, hfuel, hf => by
      rw [List.forall_mem_cons] at hls
      rw [List.length_cons] at hfuel
      set more := ls.flatMap (Line.laid n) ++ (List.replicate m ' ' ++ r) with hmore
      cases htext : l.text.isEmpty with
      | true =>
          have hlaid : (l :: ls).flatMap (Line.laid n) ++ (List.replicate m ' ' ++ r)
              = l.ending :: more := by
            rw [List.flatMap_cons, Line.laid, if_pos htext, List.append_assoc]
            rfl
          obtain ⟨t', j, hread, hextends, hnil⟩ := exists_blockLines hm hr
            (t := { t with breaks := t.breaks ++ [l.ending] }) fuel (i := i + 1) (ln + 1) (w := w)
            (f := f) hls.2 (Nat.lt_of_succ_lt_succ hfuel)
            (fun q hq => hf q (by rw [hlaid]; exact Nat.le_succ_of_le hq))
          refine ⟨t', j, ?_, ⟨?_, ?_⟩, nofun⟩
          · rw [hlaid, blockBreaks_empty hls.1, hread, List.length_cons, Nat.add_assoc,
              Nat.add_comm 1]
          · rw [hextends.soFar]
            simp [BlockText.soFar, Line.laid, htext]
          · intro k hk hne
            cases ls with
            | nil =>
                obtain rfl : l = k := by simpa using hk
                exact absurd htext (by simp [hne])
            | cons k' ls => exact hextends.last k (by simpa using hk) hne
      | false =>
          have hlaid : (l :: ls).flatMap (Line.laid n) ++ (List.replicate m ' ' ++ r)
              = List.replicate n ' ' ++ (l.text.toList ++ l.ending :: more) := by
            rw [List.flatMap_cons, Line.laid, if_neg (by simp [htext])]
            simp [hmore]
          have hfirst : ∀ c ∈ (l.text.toList ++ l.ending :: more).head?, isBreak c = false := by
            cases hl : l.text.toList with
            | nil => simp_all
            | cons d text =>
                rintro c ⟨⟩
                exact hls.1.text _ (by simp [hl])
          obtain ⟨g, hg⟩ : ∃ g, f ⟨l.text.toList ++ l.ending :: more, i + n, ln, n⟩ = g + 1 ∧
              more.length ≤ g := by
            have h := hf ⟨l.text.toList ++ l.ending :: more, i + n, ln, n⟩ (by rw [hlaid]; simp)
            simp only [List.length_append, List.length_cons] at h
            exact ⟨f ⟨l.text.toList ++ l.ending :: more, i + n, ln, n⟩ - 1, by omega, by omega⟩
          obtain ⟨blank, hline⟩ := blockLines_line (n := n) (f := g) (t := t) (i := i + n)
            hls.1 more ln
          have hlength : ls.length ≤ more.length := by
            rw [hmore, List.length_append]
            exact (length_le_laid n ls).trans (Nat.le_add_right ..)
          obtain ⟨t', j, hread, hextends, hnil⟩ := exists_blockLines hm hr
            (t := ⟨t.soFar ++ l.text.toList, [l.ending], [], blank⟩) (more.length + 2)
            (i := i + n + l.text.toList.length + 1) (ln + 1) (w := 0) (f := fun _ => g)
            hls.2 (by omega) (fun q hq => hq.trans hg.2)
          refine ⟨t', j, ?_, ⟨?_, ?_⟩, nofun⟩
          · rw [hlaid, blockBreaks_indented hfirst, Option.bind_some, List.length_cons,
              Nat.add_comm ls.length, ← Nat.add_assoc]
            simp only [hg.1]
            exact hline.trans hread
          · rw [hextends.soFar]
            simp [BlockText.soFar, Line.laid, htext]
          · intro k hk hne
            cases ls with
            | nil =>
                obtain rfl : l = k := by simpa using hk
                rw [hnil rfl]
                exact ⟨rfl, rfl⟩
            | cons k' ls => exact hextends.last k (by simpa using hk) hne

end Blocks

/-! ### Blocks -/

/-- What becomes of the breaks at the end of a block, as its header says. -/
def chompOf (cs : List Char) : Chomp :=
  match cs.reverse with
  | [] => .strip
  | [c] => if isBreak c then .keep else .strip
  | c :: d :: _ => if !isBreak c then .strip else if isBreak d then .keep else .clip

/-- The sign in the header of a block. -/
def Chomp.sign : Chomp → List Char
  | .strip => ['-']
  | .clip => []
  | .keep => ['+']

/-- Whether the first line of a text does not show how far the lines of its block are indented. -/
def needsHint (cs : List Char) : Bool := cs.head?.any fun c => isSpace c || isBreak c

/-- The header of a block behind its mark. -/
def headerOf (cs : List Char) : List Char :=
  (if needsHint cs then ['2'] else []) ++ (chompOf cs).sign

lemma toList_linesHeader (cs : List Char) : (linesHeader cs).toList = '|' :: headerOf cs := by
  rw [linesHeader, headerOf, needsHint, chompOf]
  split_ifs <;> split <;> (try split_ifs) <;> simp_all [Chomp.sign]

lemma blockHeader_headerOf {cs more : List Char} :
    blockHeader ⟨headerOf cs ++ '\n' :: more, i, ln, c⟩
      = some (chompOf cs, if needsHint cs then some 2 else none,
          ⟨'\n' :: more, i + (headerOf cs).length, ln, c + (headerOf cs).length⟩) := by
  rw [headerOf]
  cases needsHint cs <;> cases chompOf cs <;> rfl

/-- The lines of a text.  Behind its last break there is none. -/
def textLines (cs : List Char) : List Line :=
  if cs.getLast?.any isBreak then (Line.split [] cs).dropLast else Line.split [] cs

lemma write_lines (s : String) : ScalarStyle.lines.write s
    = { text := linesHeader s.toList } :: textLines s.toList := rfl

lemma Line.laid_zero (l : Line) : l.laid 0 = l.text.toList ++ [l.ending] := by
  rw [Line.laid]
  split <;> simp_all

lemma flatMap_split (acc cs : List Char) :
    (Line.split acc cs).flatMap (Line.laid 0) = acc.reverse ++ (cs ++ ['\n']) := by
  induction cs generalizing acc with
  | nil => simp [Line.split, Line.laid_zero]
  | cons d cs ih =>
      rw [Line.split]
      split
      · simp [Line.laid_zero, ih]
      · simp [ih]

lemma whole_of_mem_split {acc cs : List Char} (hacc : ∀ c ∈ acc, isBreak c = false)
    (hcs : ∀ c ∈ cs, isBreak c = true → c ∈ plainBreaks) {l : Line} (hl : l ∈ Line.split acc cs) :
    l.Whole := by
  induction cs generalizing acc with
  | nil =>
      obtain rfl := List.mem_singleton.mp hl
      exact ⟨by simpa using hacc, by simp [plainBreaks]⟩
  | cons d cs ih =>
      rw [List.forall_mem_cons] at hcs
      rw [Line.split] at hl
      split at hl
      · rename_i hd
        rcases List.mem_cons.mp hl with rfl | hl
        · exact ⟨by simpa using hacc, hcs.1 hd⟩
        · exact ih (by simp) hcs.2 hl
      · rename_i hd
        exact ih (List.forall_mem_cons.mpr ⟨by simpa using hd, hacc⟩) hcs.2 hl

lemma split_append_break (acc cs : List Char) {b : Char} (hb : isBreak b = true) :
    ∃ ls, Line.split acc (cs ++ [b]) = ls ++ [{ text := "" }] := by
  induction cs generalizing acc with
  | nil => exact ⟨[{ text := String.ofList acc.reverse, ending := b }], by simp [Line.split, hb]⟩
  | cons d cs ih =>
      rw [List.cons_append, Line.split]
      split
      · obtain ⟨ls, hls⟩ := ih []
        exact ⟨_ :: ls, by rw [hls]; rfl⟩
      · exact ih _

/-- The lines of a text together are the text, with a break at its end. -/
lemma flatMap_textLines (cs : List Char) : (textLines cs).flatMap (Line.laid 0)
    = if cs.getLast?.any isBreak then cs else cs ++ ['\n'] := by
  rw [textLines]
  split_ifs with h
  · obtain rfl | ⟨xs, b, rfl⟩ := List.eq_nil_or_concat' cs
    · simp at h
    · have hb : isBreak b = true := by simpa using h
      obtain ⟨ls, hls⟩ := split_append_break [] xs hb
      have hwhole := flatMap_split [] (xs ++ [b])
      rw [hls, List.flatMap_append] at hwhole
      rw [hls, List.dropLast_concat]
      exact List.append_cancel_right hwhole
  · simp [flatMap_split]

lemma whole_of_mem_textLines {cs : List Char}
    (hcs : ∀ c ∈ cs, isBreak c = true → c ∈ plainBreaks) {l : Line} (hl : l ∈ textLines cs) :
    l.Whole := by
  rw [textLines] at hl
  split_ifs at hl
  · exact whole_of_mem_split (by simp) hcs ((List.dropLast_sublist _).subset hl)
  · exact whole_of_mem_split (by simp) hcs hl

/-- Where a text ends in a character that is no break and a break, its last line is not empty. -/
lemma exists_last_line {ls : List Line} (hls : ∀ l ∈ ls, l.Whole) {xs : List Char} {d e : Char}
    (h : ls.flatMap (Line.laid 0) = xs ++ [d, e]) (hd : isBreak d = false) :
    ∃ l, ls.getLast? = some l ∧ l.text.isEmpty = false ∧ l.ending = e := by
  obtain rfl | ⟨ls, l, rfl⟩ := List.eq_nil_or_concat' ls
  · simp at h
  · have hsplit : (ls.flatMap (Line.laid 0) ++ l.text.toList) ++ [l.ending]
        = (xs ++ [d]) ++ [e] := by
      simpa [Line.laid_zero] using h
    obtain ⟨hinit, hending⟩ := List.append_inj' hsplit rfl
    refine ⟨l, by simp, ?_, by simpa using hending⟩
    by_contra hempty
    rw [Bool.not_eq_false, String.isEmpty_iff] at hempty
    rw [hempty, String.toList_empty, List.append_nil] at hinit
    obtain rfl | ⟨ls, k, rfl⟩ := List.eq_nil_or_concat' ls
    · simp at hinit
    · rw [List.flatMap_append, List.flatMap_singleton, Line.laid_zero, ← List.append_assoc] at hinit
      have hbreak := (hls k (by simp)).isBreak
      rw [show k.ending = d by simpa using (List.append_inj' hinit rfl).2, hd] at hbreak
      exact nomatch hbreak

/-- What is left of the lines when the header has its way with their end. -/
def Chomp.apply (t : BlockText) : Chomp → List Char
  | .strip => t.text
  | .clip => t.text ++ t.lastBreak
  | .keep => t.soFar

/-- **The header of a block says how its text ends.** -/
lemma apply_chompOf {cs : List Char} (hne : cs ≠ []) (hcs : ∀ l ∈ textLines cs, l.Whole)
    {t : BlockText} (ht : BlockText.Extends {} t (textLines cs)) : (chompOf cs).apply t = cs := by
  have hlines := flatMap_textLines cs
  have hsoFar := ht.soFar
  rw [hlines, show BlockText.soFar {} = [] from rfl, List.nil_append] at hsoFar
  -- behind a last line that is not empty nothing is left open
  have hopen : ∀ (ys : List Char) {d e : Char}, isBreak d = false →
      (textLines cs).flatMap (Line.laid 0) = ys ++ [d, e] →
        t.text = ys ++ [d] ∧ t.lastBreak = [e] := by
    intro ys d e hd hys
    obtain ⟨l, hl, htext, rfl⟩ := exists_last_line hcs hys hd
    obtain ⟨hbreaks, hlast⟩ := ht.last l hl htext
    refine ⟨?_, hlast⟩
    rw [← hlines, hys, BlockText.soFar, hbreaks, hlast, List.append_nil] at hsoFar
    rw [← List.append_cancel_right_eq _ [l.ending], hsoFar]
    simp
  obtain rfl | ⟨xs, c, rfl⟩ := List.eq_nil_or_concat' cs
  · exact absurd rfl hne
  · cases hc : isBreak c with
    | false =>
        have hstrip : chompOf (xs ++ [c]) = .strip := by
          rw [chompOf, List.reverse_append]
          cases xs.reverse <;> simp [hc]
        rw [hstrip]
        exact (hopen _ (e := '\n') hc (by rw [hlines]; simp [hc])).1
    | true =>
        rw [if_pos (by simpa using hc)] at hsoFar
        obtain rfl | ⟨ys, d, rfl⟩ := List.eq_nil_or_concat' xs
        · rw [show chompOf ([] ++ [c]) = .keep by simp [chompOf, hc]]
          exact hsoFar
        · cases hd : isBreak d with
          | false =>
              obtain ⟨htext, hlast⟩ := hopen ys (e := c) hd (by rw [hlines]; simp [hc])
              rw [show chompOf (ys ++ [d] ++ [c]) = .clip by simp [chompOf, hc, hd], Chomp.apply,
                htext, hlast]
          | true =>
              rw [show chompOf (ys ++ [d] ++ [c]) = .keep by simp [chompOf, hc, hd]]
              exact hsoFar

/-- The lines of a text start like the text. -/
lemma exists_first_line {cs : List Char} (hcs : ∀ l ∈ textLines cs, l.Whole) {d : Char}
    (hd : cs.head? = some d) (hbreak : isBreak d = false) :
    ∃ l ls text, textLines cs = l :: ls ∧ l.text.toList = d :: text := by
  have hlines := flatMap_textLines cs
  have hhead : ((textLines cs).flatMap (Line.laid 0)).head? = some d := by
    rw [hlines]
    split_ifs
    · exact hd
    · rw [List.head?_append, hd, Option.some_or]
  cases htext : textLines cs with
  | nil =>
      rw [htext] at hhead
      exact nomatch hhead
  | cons l ls =>
      rw [htext, List.flatMap_cons, Line.laid_zero] at hhead
      cases hl : l.text.toList with
      | nil =>
          have hending : l.ending = d := by simpa [hl] using hhead
          have hwhole := (hcs l (by simp [htext])).isBreak
          rw [hending, hbreak] at hwhole
          exact nomatch hwhole
      | cons e text =>
          obtain rfl : e = d := by simpa [hl] using hhead
          exact ⟨l, ls, text, rfl, hl⟩

/-- A first line that does not start with a blank shows how far the lines are indented. -/
lemma blockBreaks_unknown {more : List Char} (hd : isGapChar d = false)
    (hbreak : isBreak d = false) :
    blockBreaks none (fuel + 1) [] 0 ⟨List.replicate n ' ' ++ d :: more, i, ln, 0⟩
      = some ([], n, ⟨d :: more, i + n, ln, n⟩) := by
  obtain ⟨hspace, htab⟩ : d ≠ ' ' ∧ d ≠ '\t' := by simpa [isGapChar] using hd
  have hblanks : (List.replicate n ' ' ++ d :: more).takeWhile (fun c => decide (c = ' '))
      = List.replicate n ' ' :=
    (dropWhile_append (fun c hc => by simp [List.eq_of_mem_replicate hc])
      (by rintro c ⟨⟩; simp [hspace])).1
  have hskip : (⟨List.replicate n ' ' ++ d :: more, i, ln, 0⟩ : Point).skipMany n
      = ⟨d :: more, i + n, ln, n⟩ := by
    simp [Point.skipMany]
  rw [blockBreaks]
  simp [hblanks, hskip, htab, hbreak]

/-- The breaks of a text that is written as lines are read as they are. -/
lemma mem_plainBreaks_of_fitsLines {cs : List Char} (h : fitsLines cs = true) :
    ∀ c ∈ cs, isBreak c = true → c ∈ plainBreaks := by
  intro c hc hbreak
  have hshown : c = '\t' ∨ isShown c = true := by
    have hall : needsEscape cs = false := by simp_all [fitsLines]
    rw [needsEscape, List.any_eq_false] at hall
    have := hall c hc
    simp at this
    tauto
  rcases (by simpa [isBreak, or_assoc] using hbreak : c = '\n' ∨ c = '\r' ∨ c = Char.ofNat 0x85 ∨
    c = Char.ofNat 0x2028 ∨ c = Char.ofNat 0x2029) with rfl | rfl | rfl | rfl | rfl
  · decide
  · exact absurd hshown (by decide)
  · exact absurd hshown (by decide)
  · decide
  · decide

/-- How far the lines of a block inside another one are indented, as far as its header says it. -/
def hintOf (parent : Nat) (cs : List Char) : Option Nat :=
  (if needsHint cs then some 2 else none).map fun n => (max (parent : Int) 0).toNat + n

/-- The header says how far the lines are indented, or the first line shows it. -/
lemma blockBreaks_hintOf {cs : List Char} (hne : cs ≠ []) (htab : cs.head? ≠ some '\t')
    (hwhole : ∀ l ∈ textLines cs, l.Whole) {parent : Nat} {more breaks : List Char} {w : Nat}
    {q : Point} (h : blockBreaks (some (parent + 2)) (fuel + 1) [] 0
      ⟨(textLines cs).flatMap (Line.laid (parent + 2)) ++ more, i, ln, 0⟩ = some (breaks, w, q)) :
    ∃ widest, blockBreaks (hintOf parent cs) (fuel + 1) [] 0
        ⟨(textLines cs).flatMap (Line.laid (parent + 2)) ++ more, i, ln, 0⟩
          = some (breaks, widest, q) ∧
      (hintOf parent cs).getD (max widest (max ((parent : Int) + 1) 1).toNat) = parent + 2 := by
  rw [hintOf]
  cases hhint : needsHint cs with
  | true => exact ⟨w, by simpa using h, by simp⟩
  | false =>
      obtain ⟨d, cs, rfl⟩ := List.exists_cons_of_ne_nil hne
      obtain ⟨hspace, hbreak⟩ : d ≠ ' ' ∧ isBreak d = false := by
        simpa [needsHint, isSpace] using hhint
      have hgap : isGapChar d = false := by
        have hne_tab : d ≠ '\t' := fun htab' => htab (by rw [htab']; rfl)
        simp [isGapChar, hspace, hne_tab]
      obtain ⟨l, ls, text, hlines, hl⟩ := exists_first_line hwhole rfl hbreak
      have htext : l.text.isEmpty = false := by
        simp [← String.toList_inj, hl]
      obtain ⟨rest, hrest⟩ : ∃ rest, (l :: ls).flatMap (Line.laid (parent + 2)) ++ more
          = List.replicate (parent + 2) ' ' ++ d :: rest := by
        rw [List.flatMap_cons, Line.laid, if_neg (by simp [htext]), hl]
        simp
      rw [hlines, hrest, blockBreaks_indented (by rintro c ⟨⟩; exact hbreak)] at h
      obtain ⟨rfl, -, rfl⟩ := by simpa using h
      refine ⟨parent + 2, ?_, ?_⟩
      · rw [hlines, hrest]
        exact blockBreaks_unknown hgap hbreak
      · rw [if_neg Bool.false_ne_true, Option.map_none, Option.getD_none]
        omega

/-- **A text that is written as a block of lines is read back**, inside a block that is indented by
`parent`, whatever it starts and ends with. -/
theorem blockScalar_lines (ln : Nat) {cs : List Char} (hfits : fitsLines cs = true) (hne : cs ≠ [])
    (htab : cs.head? ≠ some '\t') {parent m : Nat} (hm : m ≤ parent) (hr : Fresh r) :
    ∃ j, blockScalar true parent
        ⟨headerOf cs ++ '\n' :: ((textLines cs).flatMap (Line.laid (parent + 2)) ++
          (List.replicate m ' ' ++ r)), i, ln, c⟩
      = some (cs, ⟨r, j, ln + 1 + (textLines cs).length, m⟩) := by
  have hwhole : ∀ l ∈ textLines cs, l.Whole := fun l hl =>
    whole_of_mem_textLines (mem_plainBreaks_of_fitsLines hfits) hl
  set body := (textLines cs).flatMap (Line.laid (parent + 2)) ++ (List.replicate m ' ' ++ r)
    with hbody
  have hfuel : (textLines cs).length < body.length + 1 := by
    rw [hbody, List.length_append]
    exact Nat.lt_succ_of_le ((length_le_laid _ _).trans (Nat.le_add_right ..))
  obtain ⟨t, j, hread, hextends, -⟩ := exists_blockLines (n := parent + 2) (t := {})
    (show m < parent + 2 by omega) hr (body.length + 1) (i := i + (headerOf cs).length + 1) (ln + 1)
    (w := 0) (f := fun q => q.rest.length + 1) hwhole hfuel (fun q _ => Nat.le_succ _)
  obtain ⟨⟨breaks, w, q⟩, hbreaks, hblock⟩ := Option.bind_eq_some_iff.mp hread
  have hlines : blockLines true (parent + 2) (q.rest.length + 1) { breaks } q
      = some (t, ⟨r, j, ln + 1 + (textLines cs).length, m⟩) := hblock
  obtain ⟨widest, hfirst, hindent⟩ := blockBreaks_hintOf hne htab hwhole hbreaks
  have hend : lineEnd ⟨'\n' :: body, i + (headerOf cs).length, ln, c + (headerOf cs).length⟩
      = some ⟨body, i + (headerOf cs).length + 1, ln + 1, 0⟩ := rfl
  have htext := apply_chompOf hne hwhole hextends
  rw [← hbody, hintOf] at hfirst
  rw [hintOf] at hindent
  refine ⟨j, ?_⟩
  rw [blockScalar, blockHeader_headerOf]
  simp only [Option.bind_eq_bind, Option.bind_some, hend, hfirst, hindent, hlines]
  cases hchomp : chompOf cs <;> rw [hchomp] at htext <;>
    exact congrArg (fun text => some (text, _)) htext

end Cellular.Yaml
