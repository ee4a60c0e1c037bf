import Cellular.Proofs.Source.Words
import Mathlib.Data.List.DropRight

/-!
# Tokens tile a text

Splitting a text loses nothing: the tokens and the gaps around them make up the text, and a gap is
nothing but blanks and whole comments.  Where no token starts, this holds of the text before that
place.

* `Position.behind` is the place behind a text, counted from its characters;
  `Position.afterAll_start`: it is where reading the text leads.
* `Skipped` are the runs of blanks and the comments, `Gap` their sequences, and `Tiled` says that
  tokens and gaps make up a text.
* `Unscanned` says that no rule matches at the front of a text; `Unscanned.not_skipped` and
  `Unscanned.not_word`: then nothing that a rule is for stands there.
* `tiled_lexFrom` follows the splitting of a text, `lex_tiles` is the statement for whole texts.

The proof follows the lexer through the text with what has been read so far in front.  Its invariant
is that the place of the lexer is the one behind that front, computed from its characters; the
places of tokens come from there.  A blank run and a comment are whole only in front of the right
rest, and this is why the relations for gaps carry the text behind.  For a text that does not split,
the front is tiled as well, and for what stands behind it every lexical rule has been tried without
a match.
-/

namespace Cellular

open Number (isDigit)

/-! ## Places

A place is moved character by character, but can be read off the whole text in front of it.
-/

/-- The place behind a text: its bytes, the number of its line breaks, and its characters behind the
last of them. -/
def Position.behind (cs : List Char) : Position :=
  { offset := (String.ofList cs).utf8ByteSize
    line := 1 + cs.count '\n'
    column := 1 + (cs.rtakeWhile (· ≠ '\n')).length }

/-- One more character moves the place behind a text as it moves any place. -/
lemma Position.behind_concat (cs : List Char) (c : Char) :
    Position.behind (cs ++ [c]) = (Position.behind cs).after c := by
  by_cases hc : c = '\n'
  · subst hc
    simp only [behind, after, String.ofList_append, String.utf8ByteSize_append, List.count_append,
      List.rtakeWhile_concat, if_true]
    simp [Int.add_assoc]
    decide
  · simp [behind, after, hc, Int.add_comm]

/-- **Reading a text leads to the place behind it.** -/
theorem Position.afterAll_start (cs : List Char) : start.afterAll cs = behind cs := by
  induction cs using List.reverseRecOn with
  | nil => rfl
  | append_singleton cs c ih => rw [afterAll_append, ih, behind_concat, afterAll_cons, afterAll_nil]

lemma Position.afterAll_behind (cs ds : List Char) :
    (behind cs).afterAll ds = behind (cs ++ ds) := by
  rw [← afterAll_start, ← afterAll_append, afterAll_start]

/-- The bytes of a text and of one behind it add up. -/
lemma Position.offset_behind_append (cs ds : List Char) :
    (behind (cs ++ ds)).offset = (behind cs).offset + (String.ofList ds).utf8ByteSize := by
  simp [behind]

/-! ## Gaps

The gaps are described without the lexer: a reader of the definition needs to know only what a blank
is and how comments end.
-/

/-- `Skipped w rest`: where `rest` stands behind it, `w` is a whole run of blanks or a whole
comment. -/
inductive Skipped : List Char → List Char → Prop where
  | blanks {w rest : List Char} (hw : ∀ c ∈ w, isBlank c = true) (hne : w ≠ [])
      (hrest : ∀ c ∈ rest.head?, isBlank c = false) : Skipped w rest
  /-- Two slashes, up to the end of the line. -/
  | line {w rest : List Char} (hw : '\n' ∉ w) (hrest : ∀ c ∈ rest.head?, c = '\n') :
      Skipped ('/' :: '/' :: w) rest
  /-- From `/*` up to the first `*/`. -/
  | block {w rest : List Char} (hw : ¬ ['*', '/'] <:+: w ++ ['*']) :
      Skipped ('/' :: '*' :: (w ++ ['*', '/'])) rest

/-- `Gap g rest`: where `rest` stands behind it, `g` is made of blanks and whole comments. -/
inductive Gap : List Char → List Char → Prop where
  | nil (rest : List Char) : Gap [] rest
  | cons {w g rest : List Char} (hw : Skipped w (g ++ rest)) (hg : Gap g rest) : Gap (w ++ g) rest

/-- `Tiled front ts cs rest`: behind `front` and in front of `rest`, the tokens `ts` and the gaps
before, between and behind them make up the text `cs`.  Each token is a word of its kind, at the
place where it stands. -/
def Tiled (front : List Char) : List Token → List Char → List Char → Prop
  | [], cs, rest => Gap cs rest
  | t :: ts, cs, rest => ∃ g more, cs = g ++ (t.text.toList ++ more) ∧
      Gap g (t.text.toList ++ (more ++ rest)) ∧ t.Lexical ∧ t.pos = .behind (front ++ g) ∧
      Tiled (front ++ g ++ t.text.toList) ts more rest

/-- What is skipped in front of a tiled text belongs to its first gap. -/
lemma Tiled.skip {front w cs rest : List Char} {ts : List Token} (hw : Skipped w (cs ++ rest))
    (h : Tiled (front ++ w) ts cs rest) : Tiled front ts (w ++ cs) rest := by
  cases ts with
  | nil => exact .cons hw h
  | cons t ts =>
      obtain ⟨g, more, rfl, hg, hlexical, hpos, hmore⟩ := h
      refine ⟨w ++ g, more, by simp, .cons (by simpa using hw) hg, hlexical, ?_, ?_⟩
      · rw [hpos, List.append_assoc]
      · simpa using hmore

/-- A token in front of a tiled text. -/
lemma Tiled.token {front cs rest : List Char} {t : Token} {ts : List Token} (ht : t.Lexical)
    (hpos : t.pos = .behind front) (h : Tiled (front ++ t.text.toList) ts cs rest) :
    Tiled front (t :: ts) (t.text.toList ++ cs) rest :=
  ⟨[], cs, rfl, .nil _, ht, by simpa using hpos, by simpa using h⟩

/-! ## Order

Offsets grow along a text, and words are not empty.
-/

/-- The tokens stand in a text one behind the other, each of them with its text at its place. -/
structure InOrder (src : List Char) (tokens : List Token) : Prop where
  increasing : tokens.Pairwise fun t u => t.pos.offset < u.pos.offset
  disjoint : tokens.Pairwise fun (t u : Token) => t.pos.offset + t.text.utf8ByteSize ≤ u.pos.offset
  standing : ∀ t ∈ tokens, ∃ before after,
    src = before ++ t.text.toList ++ after ∧ t.pos = .behind before

/-- Every token of a tiled text stands in it, behind what is in front of the text. -/
lemma Tiled.standing {rest : List Char} :
    ∀ {ts : List Token} {front cs : List Char}, Tiled front ts cs rest → ∀ t ∈ ts,
      t.Lexical ∧ ∃ before after,
        cs = before ++ t.text.toList ++ after ∧ t.pos = .behind (front ++ before)
  | [], _, _, _ => by simp
  | t :: ts, front, cs, h => by
      obtain ⟨g, more, rfl, -, hlexical, hpos, hmore⟩ := h
      refine List.forall_mem_cons.mpr ⟨⟨hlexical, g, more, by simp, hpos⟩, ?_⟩
      intro u hu
      obtain ⟨hlexical, before, after, rfl, hpos⟩ := hmore.standing u hu
      exact ⟨hlexical, g ++ t.text.toList ++ before, after, by simp, by rw [hpos]; simp⟩

/-- Words take up space. -/
lemma Token.Lexical.size_pos {t : Token} (h : t.Lexical) : 0 < t.text.utf8ByteSize := by
  rw [Nat.pos_iff_ne_zero, Ne, String.utf8ByteSize_eq_zero_iff]
  intro hempty
  exact h.ne_nil (by rw [hempty]; rfl)

/-- In a tiled text no token starts before the end of one in front of it. -/
lemma Tiled.pairwise {rest : List Char} :
    ∀ {ts : List Token} {front cs : List Char}, Tiled front ts cs rest →
      ts.Pairwise fun (t u : Token) => t.pos.offset + t.text.utf8ByteSize ≤ u.pos.offset
  | [], _, _, _ => .nil
  | t :: ts, front, cs, h => by
      obtain ⟨g, more, rfl, -, -, hpos, hmore⟩ := h
      refine .cons ?_ hmore.pairwise
      intro u hu
      obtain ⟨-, before, after, -, hu⟩ := hmore.standing u hu
      rw [hpos, hu, Position.offset_behind_append _ before,
        Position.offset_behind_append _ t.text.toList, String.ofList_toList]
      omega

/-- The tokens of a tiled text are in order. -/
lemma Tiled.inOrder {cs rest : List Char} {ts : List Token} (h : Tiled [] ts cs rest) :
    InOrder cs ts where
  increasing := by
    refine h.pairwise.imp_of_mem ?_
    intro t u ht _ hle
    have hpos := (h.standing t ht).1.size_pos
    omega
  disjoint := h.pairwise
  standing := fun t ht => (h.standing t ht).2

/-- So are they with the mark of the end. -/
lemma Tiled.inOrder_concat {src : List Char} {ts : List Token} (h : Tiled [] ts src []) :
    InOrder src (ts ++ [⟨.eof, "", .behind src⟩]) := by
  have hlast : ∀ t ∈ ts, t.pos.offset + t.text.utf8ByteSize ≤ (Position.behind src).offset := by
    intro t ht
    obtain ⟨-, before, after, rfl, hpos⟩ := h.standing t ht
    rw [hpos, List.nil_append, Position.offset_behind_append _ after,
      Position.offset_behind_append _ t.text.toList, String.ofList_toList]
    omega
  have horder := h.inOrder
  constructor
  · refine List.pairwise_append.mpr ⟨horder.increasing, List.pairwise_singleton _ _, ?_⟩
    simp only [List.forall_mem_singleton]
    intro t ht
    have hpos := (h.standing t ht).1.size_pos
    have hle := hlast t ht
    omega
  · refine List.pairwise_append.mpr ⟨horder.disjoint, List.pairwise_singleton _ _, ?_⟩
    simpa only [List.forall_mem_singleton] using hlast
  · rw [List.forall_mem_append, List.forall_mem_singleton]
    exact ⟨horder.standing, src, [], by simp, rfl⟩

/-! ## Scanning gaps

A comment is scanned by its length.  The lemmas find its end again in the text.
-/

/-- The first `*/` of a text. -/
lemma exists_close {cs : List Char} : ∀ {n : Nat}, closeLength cs = n + 1 →
    ∃ w rest, cs = w ++ ['*', '/'] ++ rest ∧ n + 1 = w.length + 2 ∧ ¬ ['*', '/'] <:+: w ++ ['*'] := by
  induction cs using closeLength.induct with
  | case1 rest =>
      intro n h
      rw [closeLength] at h
      exact ⟨[], rest, rfl, h.symm, by decide⟩
  | case2 c cs hnot hclose ih =>
      intro n h
      rw [closeLength.eq_2 _ _ hnot, hclose] at h
      cases h
  | case3 c cs hnot m hclose ih =>
      intro n h
      rw [closeLength.eq_2 _ _ hnot, hclose] at h
      obtain ⟨w, rest, rfl, hlength, hw⟩ := ih hclose
      refine ⟨c :: w, rest, by simp, by simp at h ⊢; omega, ?_⟩
      rw [List.cons_append, List.infix_cons_iff]
      rintro (hfront | hinfix)
      · rw [List.cons_prefix_cons] at hfront
        obtain ⟨rfl, hfront⟩ := hfront
        cases w with
        | nil => exact absurd hfront (by decide)
        | cons d w =>
            obtain rfl : '/' = d := (List.cons_prefix_cons.mp hfront).1
            exact hnot (w ++ ['*', '/'] ++ rest) rfl rfl
      · exact hw hinfix
  | case4 =>
      intro n h
      cases h

/-- What has a `*/` inside is closed. -/
lemma closeLength_ne_zero {w : List Char} (rest : List Char) :
    closeLength (w ++ '*' :: '/' :: rest) ≠ 0 := by
  induction w with
  | nil => simp [closeLength]
  | cons c w ih =>
      rw [List.cons_append, closeLength.eq_def]
      split
      · simp
      · rename_i heq
        obtain ⟨rfl, rfl⟩ := List.cons.inj heq
        split
        · contradiction
        · simp
      · simp at *

lemma skipped_of_commentLength {cs : List Char} {n : Nat} (h : commentLength cs = n + 1) :
    Skipped (cs.take (n + 1)) (cs.drop (n + 1)) := by
  rw [commentLength.eq_def] at h
  split at h
  · rename_i cs
    obtain ⟨w, rest, rfl, hw, hrest, hspan⟩ := exists_span (· ≠ '\n') cs
    rw [hspan, Nat.add_comm] at h
    rw [← h]
    simp only [List.take_succ_cons, List.take_left, List.drop_succ_cons, List.drop_left]
    refine .line ?_ (by simpa using hrest)
    intro hmem
    simpa using hw _ hmem
  · rename_i cs
    split at h
    · cases h
    · rename_i m hclose
      obtain ⟨w, rest, rfl, hlength, hw⟩ := exists_close hclose
      have hsize : n + 1 = ('/' :: '*' :: (w ++ ['*', '/'])).length := by
        simp only [List.length_cons, List.length_append, List.length_nil]
        omega
      rw [hsize, show '/' :: '*' :: (w ++ ['*', '/'] ++ rest)
        = ('/' :: '*' :: (w ++ ['*', '/'])) ++ rest from rfl, List.take_left, List.drop_left]
      exact .block hw
  · cases h

/-- **What is scanned and is no token is skipped.** -/
lemma skipped_of_scan? {cs : List Char} {l : Lexeme} {n : Nat} (h : scan? cs = some (l, n))
    (hl : ∀ k, l ≠ .token k) : Skipped (cs.take n) (cs.drop n) := by
  obtain ⟨m, rfl, hlength⟩ := lexemeLength_of_scan? h
  cases l with
  | comment => exact skipped_of_commentLength hlength
  | blank =>
      obtain ⟨w, rest, rfl, hw, hrest, hspan⟩ := exists_span isBlank cs
      rw [lexemeLength, hspan] at hlength
      rw [← hlength, List.take_left, List.drop_left]
      refine .blanks hw ?_ hrest
      rintro rfl
      cases hlength
  | token k => exact absurd rfl (hl k)

/-! ## Where no token starts

If no rule matches, then the next character starts no lexeme at all, and so nothing longer does.
-/

/-- No lexical rule matches at the front of the text. -/
def Unscanned (cs : List Char) : Prop := ∀ l ∈ lexicalRules, lexemeLength l cs = 0

lemma unscanned_of_scan? {cs : List Char} (h : scan? cs = none) : Unscanned cs := by
  intro l hl
  have hl := List.findSome?_eq_none_iff.mp h l hl
  split at hl
  · assumption
  · cases hl

/-- Where a class has no run, no character of it starts. -/
lemma head_of_spanLength {p : Char → Bool} {c : Char} {cs : List Char}
    (h : spanLength p (c :: cs) = 0) : p c = false := by
  by_contra hc
  rw [Bool.not_eq_false] at hc
  simp [spanLength, hc] at h

namespace Unscanned

variable {w more : List Char}

/-- The rules for the characters that every lexeme starts with. -/
lemma lengths {cs : List Char} (h : Unscanned cs) :
    commentLength cs = 0 ∧ spanLength isBlank cs = 0 ∧ floatLength cs = 0 ∧
      spanLength isDigit cs = 0 ∧ wordLength cs = 0 ∧ operatorLength cs = 0 ∧ punctLength cs = 0 :=
  ⟨h .comment (by decide), h .blank (by decide), h (.token .float) (by decide),
    h (.token .int) (by decide), h (.token .ident) (by decide), h (.token .operator) (by decide),
    h (.token .punct) (by decide)⟩

/-- No blank and no whole comment stands where no rule matches. -/
theorem not_skipped (h : Unscanned (w ++ more)) : ¬ Skipped w more := by
  obtain ⟨hcomment, hblank, -⟩ := h.lengths
  intro hw
  cases hw with
  | blanks hw hne hrest =>
      obtain ⟨c, w, rfl⟩ := List.exists_cons_of_ne_nil hne
      exact absurd (hw c List.mem_cons_self) (by simp [head_of_spanLength hblank])
  | line hw hrest => simp [commentLength] at hcomment
  | @block w _ hw =>
      have hclose := closeLength_ne_zero (w := w) more
      simp only [List.cons_append, commentLength, List.append_assoc, List.nil_append] at hcomment
      split at hcomment
      · contradiction
      · cases hcomment

/-- The characters that words start with. -/
lemma head {c : Char} {cs : List Char} (h : Unscanned (c :: cs)) :
    isDigit c = false ∧ isNameStart c = false ∧ c ∉ shortOperators ∧ c ∉ punctuation := by
  obtain ⟨-, -, -, hdigit, hname, hoperator, hpunct⟩ := h.lengths
  refine ⟨head_of_spanLength hdigit, ?_, ?_, ?_⟩
  · rw [wordLength] at hname
    split_ifs at hname with hc
    · omega
    · simpa using hc
  · intro hc
    cases cs with
    | nil => simp [operatorLength, hc] at hoperator
    | cons d cs =>
        simp only [operatorLength, hc, if_true] at hoperator
        split_ifs at hoperator
  · intro hc
    simp [punctLength, hc] at hpunct

/-- No word of any kind stands where no rule matches. -/
theorem not_word (h : Unscanned (w ++ more)) (k : TokenKind) : ¬ Word k w := by
  intro hw
  cases hw with
  | @point ds fs ex hds hfs hne hex =>
      cases ds with
      | nil => exact absurd (h.head).2.2.2 (by decide)
      | cons d ds => exact absurd (hds d List.mem_cons_self) (by simp [h.head])
  | @exponent ds ex hds hne hex =>
      obtain ⟨d, ds, rfl⟩ := List.exists_cons_of_ne_nil hne
      exact absurd (hds d List.mem_cons_self) (by simp [h.head])
  | int hds hne =>
      obtain ⟨d, ds, rfl⟩ := List.exists_cons_of_ne_nil hne
      exact absurd (hds d List.mem_cons_self) (by simp [h.head])
  | keyword hw =>
      obtain ⟨c, cs, rfl, hc, -⟩ := name_of_keyword hw
      exact absurd hc (by simp [h.head])
  | ident hc hcs hnot => exact absurd hc (by simp [h.head])
  | long hlong =>
      obtain ⟨-, -, -, -, -, hoperator, -⟩ := h.lengths
      simp [operatorLength, hlong] at hoperator
  | short hshort => exact h.head.2.2.1 hshort
  | punct hc => exact h.head.2.2.2 hc

end Unscanned

/-! ## Splitting a text

The induction is that of the lexer, which takes several characters at once; the front is left free.
-/

/-- **Behind any text, what is split off is tiled by its tokens**, up to the end of the text or up to
a place where no rule matches. -/
theorem tiled_lexFrom (cs : List Char) (pos : Position) :
    ∀ front, pos = .behind front → ∃ ts mid rest, cs = mid ++ rest ∧ Tiled front ts mid rest ∧
      (rest = [] ∧ lexFrom cs pos = { tokens := ts ++ [⟨.eof, "", .behind (front ++ mid)⟩] } ∨
        rest ≠ [] ∧ Unscanned rest ∧
          lexFrom cs pos = { tokens := ts, stop := some (.behind (front ++ mid), rest) }) := by
  induction cs, pos using lexFrom.induct with
  | case1 pos =>
      rintro front rfl
      refine ⟨[], [], [], rfl, .nil [], .inl ⟨rfl, ?_⟩⟩
      rw [lexFrom, List.append_nil]
      rfl
  | case2 pos c cs hscan =>
      rintro front rfl
      refine ⟨[], [], c :: cs, rfl, .nil _, .inr ⟨by simp, unscanned_of_scan? hscan, ?_⟩⟩
      rw [lexFrom, hscan, List.append_nil]
  | case3 pos c cs lexeme n hscan text ih =>
      rintro front rfl
      obtain ⟨m, rfl, -⟩ := lexemeLength_of_scan? hscan
      have htake : (c :: cs).take (m + 1) = text := by simp [text]
      have hsplit : c :: cs = text ++ cs.drop m := by simp [text]
      obtain ⟨ts, mid, rest, hmid, htiled, hlexed⟩ :=
        ih (front ++ text) (Position.afterAll_behind front text)
      rw [Nat.add_sub_cancel] at hmid
      have hwhole : lexFrom (c :: cs) (.behind front)
          = (lexFrom (cs.drop m) ((Position.behind front).afterAll text)).cons lexeme text
            (.behind front) := by
        rw [lexFrom, hscan]
        rfl
      rw [Nat.add_sub_cancel, List.append_assoc] at hlexed
      by_cases hskip : ∀ k, lexeme ≠ .token k
      · -- a run of blanks or a comment belongs to the gap in front of what follows
        have hskipped := skipped_of_scan? hscan hskip
        rw [htake, List.drop_succ_cons, hmid] at hskipped
        have hcons : ∀ l : Lexed, l.cons lexeme text (.behind front) = l := by
          intro l
          cases lexeme with
          | comment | blank => rfl
          | token k => exact absurd rfl (hskip k)
        refine ⟨ts, text ++ mid, rest, ?_, htiled.skip hskipped, ?_⟩
        · rw [hsplit, hmid, List.append_assoc]
        · rwa [hwhole, hcons]
      · obtain ⟨k, rfl⟩ : ∃ k, lexeme = .token k := by simpa using hskip
        have hword := word_of_scan? hscan
        rw [htake] at hword
        refine ⟨⟨k, String.ofList text, .behind front⟩ :: ts, text ++ mid, rest, ?_, ?_, ?_⟩
        · rw [hsplit, hmid, List.append_assoc]
        · have hlexical : Token.Lexical ⟨k, String.ofList text, .behind front⟩ := by
            rwa [Token.Lexical, String.toList_ofList]
          have hplaced : Tiled front (⟨k, String.ofList text, .behind front⟩ :: ts)
              ((String.ofList text).toList ++ mid) rest :=
            .token hlexical rfl (by rwa [String.toList_ofList])
          rwa [String.toList_ofList] at hplaced
        · rw [hwhole]
          refine hlexed.imp ?_ ?_
          · rintro ⟨hrest, hlexed⟩
            exact ⟨hrest, by rw [hlexed]; rfl⟩
          · rintro ⟨hrest, hunscanned, hlexed⟩
            exact ⟨hrest, hunscanned, by rw [hlexed]; rfl⟩

/-- **Splitting a text loses nothing and places everything.**  The tokens stand in the text in their
order, with nothing but blanks and whole comments around them, and the mark of the end stands behind
all of it.  Where splitting fails, this holds of the text up to the place of the error, and no
lexical rule matches there: no word, no blank and no whole comment starts there. -/
theorem lex_tiles (src : List Char) :
    match lex src with
    | .ok tokens => ∃ ts, tokens = ts ++ [⟨.eof, "", .behind src⟩] ∧ Tiled [] ts src [] ∧
        InOrder src tokens
    | .error (tokens, e) => ∃ front rest, src = front ++ rest ∧ e.pos = .behind front ∧
        Tiled [] tokens front rest ∧ InOrder front tokens ∧ rest ≠ [] ∧
        (∀ l ∈ lexicalRules, lexemeLength l rest = 0) ∧
        ∀ w more, rest = w ++ more → ¬ Skipped w more ∧ ∀ k, ¬ Word k w := by
  obtain ⟨ts, mid, rest, rfl, htiled, ⟨rfl, hlexed⟩ | ⟨hrest, hunscanned, hlexed⟩⟩ :=
    tiled_lexFrom src .start [] rfl
  · rw [List.append_nil] at hlexed ⊢
    simp only [lex, hlexed]
    exact ⟨ts, rfl, htiled, htiled.inOrder_concat⟩
  · simp only [lex, hlexed]
    refine ⟨mid, rest, rfl, rfl, htiled, htiled.inOrder, hrest, hunscanned, ?_⟩
    rintro w more rfl
    exact ⟨hunscanned.not_skipped, hunscanned.not_word⟩

end Cellular
