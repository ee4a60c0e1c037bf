import Cellular.Proofs.Yaml.Scanning

/-!
# Tokens of written documents

One lemma for each kind of token that is written outside brackets: what is seen before it, and what
behind it.

* `View.step_word`, `View.step_single` and `View.exists_step_lines` are the scalars.
* `step_dash` is the mark of an item, `steps_key` a key together with its colon.

A scalar at the start of a line may turn out to be a key, and what is seen behind it then depends on
whether a colon follows.  For values this is excluded, since they stand at the end of their line.  A
dash and a key open a block if none is open in their column; a key does so only when its colon is
read, and the mark of the block is inserted in front of the key then.  This is the only place where
a token is put before others that have been read, and it is possible because a token that may be a
key is not given away.
-/

namespace Cellular.Yaml

variable {r : List Char} {i ln c n : Nat}

/-! ## What is seen behind a token

Behind a token the view is computed from the one before: blocks are closed, a block may be opened,
and the token is added.
-/

namespace View

/-- Blocks that are indented by more than the place that is seen are closed. -/
def closed (v : View) : View :=
  let blocks := Scanner.closeBlocks v.point.column v.outer v.indent v.tokens.toArray v.point.line
  { v with outer := blocks.1, indent := blocks.2.1, tokens := blocks.2.2.toList }

/-- A block is opened at a column, unless one is open there. -/
def opened (v : View) (column : Nat) (u : Token) : View :=
  if v.indent < column then
    { v with indent := column, outer := v.indent :: v.outer, tokens := v.tokens ++ [u] }
  else v

/-- What is seen at the next token when a scalar is read. -/
def after (v : View) (u : Token) (q : Point) : View :=
  closed ⟨q, v.tokens ++ [u], v.indent, v.outer, true, none⟩

lemma closed_of_le {v : View} (h : v.indent ≤ v.point.column) : v.closed = v := by
  rw [closed, Scanner.closeBlocks_of_le h]

lemma exists_closed_tokens (v : View) :
    ∃ ends, v.closed.tokens = v.tokens ++ ends ∧ (∀ u ∈ ends, u.mark = .blockEnd) ∧
      ends.length + v.closed.outer.length ≤ v.outer.length + 1 := by
  obtain ⟨ends, hends, hmarks, hlength⟩ := Scanner.exists_closeBlocks_tokens v.point.column v.outer
    v.indent v.tokens.toArray v.point.line
  exact ⟨ends, by simp [closed, hends], hmarks, hlength⟩

lemma closed_size (v : View) :
    v.closed.tokens.length + v.closed.outer.length ≤ v.tokens.length + v.outer.length + 1 := by
  obtain ⟨ends, hends, -, hlength⟩ := v.exists_closed_tokens
  rw [hends, List.length_append]
  omega

end View

namespace Scanner

variable {s t : Scanner} {k : PossibleKey}

/-- A scanner that has read a token sees what is behind it. -/
lemma at_closed {w : View} (crossed : Bool) (hmargin : t.margin = 0)
    (hcomes : t.point.ComesTo crossed w.point) (hallowed : w.keyAllowed = (t.keyAllowed || crossed))
    (htokens : t.tokens = w.tokens.toArray) (hblocks : t.indent = w.indent ∧ t.outer = w.outer)
    (hgiven : t.given ≤ w.tokens.length) (hkey : ∃ k, t.keys = [k] ∧ t.Awaits w.point k w.key) :
    t.At w.closed where
  margin := hmargin
  given := by rw [htokens]; exact hgiven
  comes := ⟨crossed, hcomes, hallowed⟩
  closes := by simp [View.closed, htokens, hblocks]
  key := hkey

/-- Where a key is allowed, what starts here may be one. -/
lemma exists_noteKey_of_allowed (hk : s.keys = [k])
    (h : k.possible = true → k.required = false) (hallowed : s.keyAllowed = true) :
    ∃ waiting, s.noteKey = some { s with
      keys := [⟨true, decide (s.indent = s.point.column), s.tokens.size, s.point.index,
        s.point.line, s.point.column⟩]
      waiting := (s.tokens.size, 0) :: waiting } := by
  obtain ⟨k', waiting, hdrop, -⟩ := exists_dropKey hk h
  rw [noteKey, if_pos hallowed]
  simp only [hdrop, inFlow_eq_false hk, flow_eq_zero hk]
  exact ⟨_, rfl⟩

/-- A scalar that is indented by more than the block around it does not have to be a key. -/
lemma exists_noteKey (hk : s.keys = [k])
    (h : k.possible = true → k.required = false ∧ k.line < s.point.line)
    (hcolumn : s.indent < s.point.column) :
    ∃ k' waiting, s.noteKey = some { s with keys := [k'], waiting } ∧
      (k'.possible = true → k'.required = false ∧ k'.line ≤ s.point.line) := by
  cases hallowed : s.keyAllowed with
  | true =>
      obtain ⟨waiting, hnote⟩ := exists_noteKey_of_allowed hk (fun hp => (h hp).1) hallowed
      rw [hallowed] at hnote
      exact ⟨_, _, hnote, fun _ => ⟨by simp [Int.ne_of_lt hcolumn], Nat.le_refl _⟩⟩
  | false =>
      refine ⟨k, s.waiting, ?_, fun hp => ⟨(h hp).1, (h hp).2.le⟩⟩
      rw [noteKey, hallowed, if_neg Bool.false_ne_true, ← hk, ← hallowed]

end Scanner

/-- **A scalar is read**, and with it the start of the next line. -/
lemma View.step_after {v : View} {u : Token} {q : Point} (hkey : v.key = none)
    (hu : u.mark ≠ .textEnd) (hrest : q.rest.length < v.point.rest.length)
    (hline : v.point.line < q.line)
    (hread : ∀ (s : Scanner) (k : PossibleKey), s.keys = [k] → s.point = v.point →
      s.indent = v.indent → (k.possible = true → k.required = false ∧ k.line < s.point.line) →
      ∃ k' waiting keyAllowed p crossed,
        s.read = some { s with
          keys := [k'], waiting, keyAllowed, tokens := s.tokens.push u, point := p } ∧
        (k'.possible = true → k'.required = false ∧ k'.line ≤ s.point.line) ∧
        p.ComesTo crossed q ∧ (keyAllowed || crossed) = true) :
    v.Step (v.after u q) where
  fetch s h := by
    obtain ⟨k, hk, hawaits⟩ := h.key
    rw [hkey] at hawaits
    obtain ⟨k', waiting, keyAllowed, p, crossed, hread, hk', hcomes, hallowed⟩ :=
      hread (s.arrived v) k hk rfl rfl hawaits
    refine ⟨_, h.fetch.trans hread, ?_, rfl⟩
    refine Scanner.at_closed crossed h.margin hcomes hallowed.symm ?_ ⟨rfl, rfl⟩ ?_
      ⟨k', rfl, fun hp => ⟨(hk' hp).1, (hk' hp).2.trans_lt hline⟩⟩
    · simp [Scanner.arrived]
    · have hgiven := h.given_le
      simp [Scanner.arrived]
      omega
  rest := hrest
  size := by
    refine (View.closed_size _).trans ?_
    simp
    omega
  marks hv t ht := by
    obtain ⟨ends, hends, hmarks, -⟩ := View.exists_closed_tokens
      ⟨q, v.tokens ++ [u], v.indent, v.outer, true, none⟩
    rw [after, hends, List.mem_append, List.mem_append, List.mem_singleton] at ht
    rcases ht with (ht | rfl) | ht
    · exact hv t ht
    · exact hu
    · simp [hmarks t ht]

/-! ## Scalars

The scanner finds out by the first character which kind of token is next.
-/

namespace Scanner

variable {s : Scanner} {k : PossibleKey} {d : Char} {cs : List Char}

/-- What starts with a letter or a digit is a scalar without quotes. -/
lemma token_of_isAlphanum (hd : d.isAlphanum = true) (hmark : s.point.atDocumentMark = false) :
    s.token d cs = s.plain := by
  have h : ∀ e : Char, e.isAlphanum = false → d ≠ e := fun e => ne_of_isAlphanum hd
  have hstarts : s.startsPlain d cs = true := by
    have hmarks : d ∉ marks := by
      intro hmem
      have hall : ∀ e ∈ marks, e.isAlphanum = false := by decide
      rw [hall d hmem] at hd
      exact nomatch hd
    simp [startsPlain, isGapChar_of_isAlphanum hd, isBreak_of_isAlphanum hd, hmarks]
  unfold token
  rw [if_neg (by simp [h '%' rfl]), hmark, if_neg Bool.false_ne_true]
  split
  all_goals first
    | exact absurd hd (by decide)
    | simp [h '-' rfl, h '?' rfl, h ':' rfl, h '|' rfl, h '>' rfl, hstarts]

section Reading

variable {s' : Scanner} {text : List Char} {newLine : Bool} {p : Point}

lemma plain_of_read (hnote : s.noteKey = some s') (hflow : s'.inFlow = false)
    (hread : plainScalar false (s'.indent + 1) s'.point = some (text, newLine, p)) :
    s.plain = some (
      let t := (s'.allowKey newLine).addTo (.scalar true (String.ofList text)) p
      if newLine then t else t.skipLineComment) := by
  rw [plain, hnote]
  simp only [Option.bind_eq_bind, Option.bind_some, hflow, hread]
  rfl

lemma quoted_of_read (hnote : s.noteKey = some s')
    (hread : quotedScalar false s'.point.skip = some (text, p)) :
    s.quoted false = some ((s'.allowKey false).addTo (.scalar false (String.ofList text)) p) := by
  rw [quoted, hnote]
  simp only [Option.bind_eq_bind, Option.bind_some, hread]
  rfl

lemma block_of_read (hdrop : s.dropKey = some s')
    (hread : blockScalar true s'.indent s'.point.skip = some (text, p)) :
    s.block true = some ((s'.allowKey true).addTo (.scalar false (String.ofList text)) p) := by
  rw [block, hdrop]
  simp only [Option.bind_eq_bind, Option.bind_some, hread]
  rfl

end Reading

lemma read_of_point {more : List Char} (hpoint : s.point = ⟨d :: more, i, ln, c⟩) :
    s.read = s.token d more := by
  rw [read, hpoint]

/-- A word is read as a scalar without quotes. -/
lemma read_of_isWord {w more : List Char} (hpoint : s.point = ⟨w ++ more, i, ln, c⟩)
    (hw : IsWord w) : s.read = s.plain := by
  have hmark := hw.starts (congrArg Point.rest hpoint)
  rw [Bool.or_eq_false_iff] at hmark
  obtain ⟨d, w, rfl⟩ := List.exists_cons_of_ne_nil hw.1
  rw [read_of_point hpoint, token_of_isAlphanum (hw.2 d List.mem_cons_self) hmark.1]

/-- A quote starts a scalar in single quotes. -/
lemma read_of_quote {more : List Char} (hpoint : s.point = ⟨'\'' :: more, i, ln, c⟩) :
    s.read = (s.quoted false).map skipLineComment := by
  have hmark : s.point.atDocumentMark = false := by simp [hpoint, Point.atDocumentMark]
  rw [read_of_point hpoint]
  unfold token
  rw [if_neg (by simp), hmark, if_neg Bool.false_ne_true]
  rfl

/-- A bar starts a block of lines. -/
lemma read_of_bar {more : List Char} (hpoint : s.point = ⟨'|' :: more, i, ln, c⟩)
    (hk : s.keys = [k]) : s.read = s.block true := by
  have hmark : s.point.atDocumentMark = false := by simp [hpoint, Point.atDocumentMark]
  rw [read_of_point hpoint]
  unfold token
  rw [if_neg (by simp), hmark, if_neg Bool.false_ne_true]
  simp [inFlow_eq_false hk]

/-- A dash before a blank starts an entry. -/
lemma read_of_dash {more : List Char} (hpoint : s.point = ⟨'-' :: ' ' :: more, i, ln, c⟩) :
    s.read = s.entry := by
  have hmark : s.point.atDocumentMark = false := by simp [hpoint, Point.atDocumentMark]
  rw [read_of_point hpoint]
  unfold token
  rw [if_neg (by simp), hmark, if_neg Bool.false_ne_true]
  rfl

/-- A colon before white space ends a key. -/
lemma read_of_colon {more : List Char} (hpoint : s.point = ⟨':' :: more, i, ln, c⟩)
    (hmore : startsBlank more = true) : s.read = s.value.map skipLineComment := by
  have hmark : s.point.atDocumentMark = false := by simp [hpoint, Point.atDocumentMark]
  rw [read_of_point hpoint]
  unfold token
  rw [if_neg (by simp), hmark, if_neg Bool.false_ne_true]
  simp [hmore]

/-- White space in front of a token is no comment. -/
lemma skipLineComment_of_comesTo {crossed : Bool} {q : Point} (h : s.point.ComesTo crossed q) :
    s.skipLineComment = s := by
  have hskip : s.point.skipGap.startsWith '#' = false := by
    cases hpoint : s.point with
    | mk rest i ln c =>
    rw [hpoint] at h
    cases h with
    | blanks n hr =>
        have htake := hr.takeWhile (n := n) (p := isGapChar) rfl fun _ hc => hc
        rw [Point.skipGap, htake]
        simp only [List.length_replicate, Point.skipMany,
          List.drop_left' (List.length_replicate ..)]
        exact hr.startsWith
    | line n hr => rfl
  rw [skipLineComment]
  simp [hskip]

end Scanner

/-- **A word is read**, if the next line is indented by less. -/
lemma View.step_word {v : View} {w : List Char} (hpoint : v.point
      = ⟨w ++ '\n' :: (List.replicate n ' ' ++ r), i, ln, c⟩) (hw : IsWord w) (hr : Fresh r)
    (hkey : v.key = none) (hn : (n : Int) ≤ v.indent) (hcolumn : v.indent < c) :
    v.Step (v.after ⟨.scalar true (String.ofList w), ln + 1⟩
      ⟨r, i + w.length + 1 + n, ln + 1, n⟩) := by
  refine View.step_after hkey nofun (by rw [hpoint]; simp; omega)
    (by rw [hpoint]; exact Nat.lt_succ_self _) ?_
  intro s k hk hs hindent hp
  rw [hpoint] at hs
  obtain ⟨k', waiting, hnote, hk'⟩ :=
    Scanner.exists_noteKey hk hp (by rw [hs, hindent]; exact hcolumn)
  have hplain : plainScalar false (s.indent + 1) s.point
      = some (w, true, ⟨r, i + w.length + 1 + n, ln + 1, n⟩) := by
    rw [hs]
    exact plainScalar_line hw hr (by omega)
  refine ⟨k', waiting, true, _, false, ?_, hk', Point.ComesTo.blanks 0 hr, rfl⟩
  rw [Scanner.read_of_isWord hs hw,
    Scanner.plain_of_read hnote (Scanner.inFlow_eq_false rfl) hplain]
  simp [Scanner.addTo, Scanner.push, Scanner.allowKey, hs]

/-- **A text in single quotes is read**, at the end of a line. -/
lemma View.step_single {v : View} {cs : List Char} (hpoint : v.point
      = ⟨'\'' :: (singleQuoted cs ++ '\n' :: (List.replicate n ' ' ++ r)), i, ln, c⟩)
    (hcs : ∀ c ∈ cs, isBreak c = false) (hr : Fresh r) (hkey : v.key = none)
    (hcolumn : v.indent < c) :
    v.Step (v.after ⟨.scalar false (String.ofList cs), ln + 1⟩
      ⟨r, i + 1 + (singleQuoted cs).length + 1 + n, ln + 1, n⟩) := by
  refine View.step_after hkey nofun (by rw [hpoint]; simp; omega)
    (by rw [hpoint]; exact Nat.lt_succ_self _) ?_
  intro s k hk hs hindent hp
  rw [hpoint] at hs
  obtain ⟨k', waiting, hnote, hk'⟩ :=
    Scanner.exists_noteKey hk hp (by rw [hs, hindent]; exact hcolumn)
  have hquoted : quotedScalar false s.point.skip
      = some (cs, ⟨'\n' :: (List.replicate n ' ' ++ r), i + 1 + (singleQuoted cs).length, ln,
          c + 1 + (singleQuoted cs).length⟩) := by
    rw [hs]
    exact quotedScalar_single (by simp) hcs (Nat.succ_pos c)
  have hcomes : Point.ComesTo true ⟨'\n' :: (List.replicate n ' ' ++ r),
      i + 1 + (singleQuoted cs).length, ln, c + 1 + (singleQuoted cs).length⟩ _ := .line n hr
  refine ⟨k', waiting, false, _, true, ?_, hk', hcomes, rfl⟩
  rw [Scanner.read_of_quote hs, Scanner.quoted_of_read hnote hquoted,
    Option.map_some, Scanner.skipLineComment_of_comesTo hcomes]
  simp [Scanner.addTo, Scanner.push, Scanner.allowKey, hs]

/-- **A block of lines is read**, up to what is indented no further than the block around it. -/
lemma View.exists_step_lines (ln : Nat) {v : View} {cs : List Char} {parent : Nat} (hpoint : v.point
      = ⟨'|' :: (headerOf cs ++ '\n' :: ((textLines cs).flatMap (Line.laid (parent + 2)) ++
          (List.replicate n ' ' ++ r))), i, ln, c⟩)
    (hfits : fitsLines cs = true) (hne : cs ≠ []) (htab : cs.head? ≠ some '\t') (hr : Fresh r)
    (hkey : v.key = none) (hindent : v.indent = parent) (hn : n ≤ parent) :
    ∃ j, v.Step (v.after ⟨.scalar false (String.ofList cs), ln + 1⟩
      ⟨r, j, ln + 1 + (textLines cs).length, n⟩) := by
  obtain ⟨j, hblock⟩ := blockScalar_lines (i := i + 1) (c := c + 1) ln hfits hne htab hn hr
  refine ⟨j, View.step_after hkey nofun (by rw [hpoint]; simp; omega)
    (by rw [hpoint]; simp; omega) ?_⟩
  intro s k hk hs hsindent hp
  rw [hpoint] at hs
  obtain ⟨k', waiting, hdrop, hk'⟩ := Scanner.exists_dropKey hk fun h => (hp h).1
  refine ⟨k', waiting, true, _, false, ?_, fun h => absurd h (by simp [hk']),
    Point.ComesTo.blanks 0 hr, rfl⟩
  rw [Scanner.read_of_bar hs hk, Scanner.block_of_read hdrop
    (by rw [hsindent, hindent, hs]; exact hblock)]
  simp [Scanner.addTo, Scanner.push, Scanner.allowKey, hs]

/-! ## Keys and dashes

The tokens of a view are those that were read, whether they were given away or not, so inserting one
among them needs the number of those that were.
-/

lemma insertIdx_append {α : Type} (as bs : List α) (a : α) :
    (as ++ bs).insertIdx as.length a = as ++ a :: bs := by
  induction as with
  | nil => rfl
  | cons b as ih => simp [ih]

namespace Scanner

variable {s : Scanner} {k : PossibleKey} {ts : List Token}

/-- A token that is inserted among those that are not given away. -/
lemma insert_eq {u : Token} {more : List Token} (htokens : s.tokens = (ts ++ more).toArray)
    (hgiven : s.given ≤ ts.length) :
    s.insert ts.length u = { s with tokens := (ts ++ u :: more).toArray } := by
  rw [insert, htokens, if_neg (Nat.not_lt.mpr hgiven), List.insertIdxIfInBounds_toArray,
    insertIdx_append]

/-- A block is opened where it is seen to be opened. -/
lemma openBlock_eq {v : View} (mark : Mark) (line column : Nat) (more : List Token)
    (hk : s.keys = [k]) (htokens : s.tokens = (v.tokens ++ more).toArray)
    (hgiven : s.given ≤ v.tokens.length)
    (hblocks : s.indent = v.indent ∧ s.outer = v.outer) (hdepth : v.outer.length < maxDepth) :
    s.openBlock column v.tokens.length line mark = some { s with
      tokens := ((v.opened column ⟨mark, line + 1⟩).tokens ++ more).toArray
      indent := (v.opened column ⟨mark, line + 1⟩).indent
      outer := (v.opened column ⟨mark, line + 1⟩).outer } := by
  rw [openBlock, inFlow_eq_false hk, View.opened, hblocks.1, hblocks.2]
  by_cases h : v.indent < column
  · have hle : ¬ (column : Int) ≤ v.indent := Int.not_le.mpr h
    rw [if_pos h, if_neg (by simp [hle]), if_neg (Nat.not_le.mpr hdepth), insert_eq htokens hgiven]
    simp
  · rw [if_neg h, if_pos (by simpa using Int.not_lt.mp h), ← htokens, ← hblocks.1, ← hblocks.2]

/-- The colon of a key that is still awaited. -/
lemma exists_value {v : View} {u : Token} (hk : s.keys = [k]) (hp : k.possible = true)
    (hline : k.line = s.point.line) (hreach : s.point.index ≤ k.index + 1024)
    (hnumber : k.number = v.tokens.length) (htokens : s.tokens = (v.tokens ++ [u]).toArray)
    (hgiven : s.given ≤ v.tokens.length) (hblocks : s.indent = v.indent ∧ s.outer = v.outer)
    (hdepth : v.outer.length < maxDepth) :
    ∃ waiting, s.value = some { s with
      point := s.point.skipMany 1
      tokens := ((v.opened k.column ⟨.mappingStart, k.line + 1⟩).tokens
        ++ [⟨.key, k.line + 1⟩, u, ⟨.value, k.line + 1⟩]).toArray
      indent := (v.opened k.column ⟨.mappingStart, k.line + 1⟩).indent
      outer := (v.opened k.column ⟨.mappingStart, k.line + 1⟩).outer
      keys := [{ k with possible := false }]
      waiting
      keyAllowed := false } := by
  have hkey : s.key = k := by rw [key, hk]; rfl
  have hjudge : s.judge k = some (true, k) := by
    rw [judge, if_neg (by simp [hp]), if_neg (by simp; omega)]
  have hset : s.setKey k = s := by rw [setKey, hk, List.tail_cons, ← hk]
  have hopen := openBlock_eq (s := s.insert k.number ⟨.key, k.line + 1⟩) (k := k) (v := v)
    .mappingStart k.line k.column [⟨.key, k.line + 1⟩, u] hk
    (by rw [hnumber, insert_eq htokens hgiven]) hgiven hblocks hdepth
  rw [← hnumber] at hopen
  rw [value, hkey, hjudge]
  simp only [Option.bind_eq_bind, Option.bind_some, if_true, hset, hopen]
  refine ⟨s.waiting.filter (·.1 ≠ k.number), ?_⟩
  simp [setKey, release, allowKey, push, skip, insert, hk, hline]

end Scanner

namespace View

lemma opened_size (v : View) (column : Nat) (u : Token) :
    (v.opened column u).tokens.length + (v.opened column u).outer.length
      ≤ v.tokens.length + v.outer.length + 2 := by
  rw [opened]
  split <;> (simp; try omega)

lemma mem_opened_tokens {v : View} {column : Nat} {u t : Token}
    (h : t ∈ (v.opened column u).tokens) : t ∈ v.tokens ∨ t = u := by
  rw [opened] at h
  split at h
  · simpa using h
  · exact .inl h

lemma le_opened_tokens (v : View) (column : Nat) (u : Token) :
    v.tokens.length ≤ (v.opened column u).tokens.length := by
  rw [opened]
  split <;> simp

lemma le_opened_outer (v : View) (column : Nat) (u : Token) :
    v.outer.length ≤ (v.opened column u).outer.length := by
  rw [opened]
  split <;> simp

lemma opened_indent {v : View} {column : Nat} (h : v.indent ≤ column) (u : Token) :
    (v.opened column u).indent = column := by
  rw [opened]
  split
  · rfl
  · omega

/-- What is seen behind the mark of an entry. -/
def entered (v : View) : View :=
  let w := v.opened v.point.column ⟨.sequenceStart, v.point.line + 1⟩
  ⟨v.point.skipMany 2, w.tokens ++ [⟨.entry, v.point.line + 1⟩], w.indent, w.outer, true, none⟩

/-- **The dash of an entry is read**, and opens a sequence if none is open there. -/
lemma step_dash {v : View} (hpoint : v.point = ⟨'-' :: ' ' :: r, i, ln, c⟩) (hr : Fresh r)
    (hkey : v.key = none) (hallowed : v.keyAllowed = true) (hindent : v.indent ≤ c)
    (hdepth : v.outer.length < Scanner.maxDepth) : v.Step v.entered where
  fetch s h := by
    obtain ⟨k, hk, hawaits⟩ := h.key
    rw [hkey] at hawaits
    have hs : (s.arrived v).point = ⟨'-' :: ' ' :: r, i, ln, c⟩ := hpoint
    have hopen := Scanner.openBlock_eq (s := s.arrived v) (v := v) .sequenceStart ln c [] hk
      (by simp [Scanner.arrived]) h.given_le ⟨rfl, rfl⟩ hdepth
    set w := v.opened c ⟨.sequenceStart, ln + 1⟩ with hw
    set t : Scanner := { s.arrived v with
      tokens := (w.tokens ++ []).toArray, indent := w.indent, outer := w.outer } with ht
    obtain ⟨k', waiting, hdrop, hk'⟩ := Scanner.exists_dropKey (s := t) hk fun hp => (hawaits hp).1
    have hentry : (s.arrived v).entry
        = some (((({ t with keys := [k'], waiting }).allowKey true).push .entry).skip 1) := by
      have hhere : (s.arrived v).openHere .sequenceStart = some t := by
        rw [Scanner.openHere, hs]
        simpa [Scanner.arrived] using hopen
      have hflow : (s.arrived v).inFlow = false := Scanner.inFlow_eq_false hk
      have hkey' : (s.arrived v).keyAllowed = true := hallowed
      rw [Scanner.entry, hflow, hkey', if_neg (by simp), hhere]
      simp only [Option.bind_eq_bind, Option.bind_some, hdrop]
      rfl
    have hentered : v.entered = ⟨⟨r, i + 2, ln, c + 2⟩, w.tokens ++ [⟨.entry, ln + 1⟩], w.indent,
        w.outer, true, none⟩ := by
      rw [entered, hpoint]
      rfl
    refine ⟨_, h.fetch.trans ((Scanner.read_of_dash hs).trans hentry), ?_, rfl⟩
    rw [← closed_of_le (v := v.entered) (by
      rw [hentered]; simp only [hw, opened_indent hindent]; omega), hentered]
    refine Scanner.at_closed false h.margin ?_ rfl ?_ ⟨rfl, rfl⟩ ?_ ⟨k', rfl, fun hp => ?_⟩
    · have hcomes : Point.ComesTo false ⟨' ' :: r, i + 1, ln, c + 1⟩ ⟨r, i + 2, ln, c + 2⟩ :=
        .blanks 1 hr
      simpa [Scanner.skip, Scanner.push, Scanner.allowKey, ht, hs, Point.skipMany] using hcomes
    · simp [Scanner.skip, Scanner.push, Scanner.allowKey, ht, hs]
    · have hgiven := h.given_le
      have hle := v.le_opened_tokens c ⟨.sequenceStart, ln + 1⟩
      simp [Scanner.skip, Scanner.push, Scanner.allowKey, ht, Scanner.arrived, hw]
      omega
    · rw [hk'] at hp
      cases hp
  rest := by
    rw [entered, hpoint]
    simp only [Point.skipMany, List.drop_succ_cons, List.drop_zero, List.length_cons]
    omega
  size := by
    have hsize := v.opened_size v.point.column ⟨.sequenceStart, v.point.line + 1⟩
    simp only [entered, List.length_append, List.length_cons, List.length_nil]
    omega
  marks hv t ht := by
    rw [entered, List.mem_append, List.mem_singleton] at ht
    rcases ht with ht | rfl
    · rcases mem_opened_tokens ht with ht | rfl
      · exact hv t ht
      · simp
    · simp

/-- What is seen at the colon of a key. -/
def keyed (v : View) (w more : List Char) : View :=
  ⟨⟨':' :: more, v.point.index + w.length, v.point.line, v.point.column + w.length⟩,
    v.tokens ++ [⟨.scalar true (String.ofList w), v.point.line + 1⟩], v.indent, v.outer, false,
    some ⟨true, decide (v.indent = v.point.column), v.tokens.length, v.point.index, v.point.line,
      v.point.column⟩⟩

/-- **A key is read**, up to its colon. -/
lemma step_key {v : View} {w more : List Char} (hpoint : v.point = ⟨w ++ ':' :: more, i, ln, c⟩)
    (hw : IsWord w) (hlong : w.length ≤ 1024) (hmore : startsBlank more = true)
    (hkey : v.key = none) (hallowed : v.keyAllowed = true) (hindent : v.indent ≤ c) :
    v.Step (v.keyed w more) where
  fetch s h := by
    obtain ⟨k, hk, hawaits⟩ := h.key
    rw [hkey] at hawaits
    have hs : (s.arrived v).point = ⟨w ++ ':' :: more, i, ln, c⟩ := hpoint
    obtain ⟨waiting, hnote⟩ := Scanner.exists_noteKey_of_allowed (s := s.arrived v) (k := k) hk
      (fun hp => (hawaits hp).1) hallowed
    have hplain : plainScalar false (v.indent + 1) (s.arrived v).point
        = some (w, false, ⟨':' :: more, i + w.length, ln, c + w.length⟩) := by
      rw [hs]
      exact plainScalar_key hw hmore
    have hcomes : Point.ComesTo false ⟨':' :: more, i + w.length, ln, c + w.length⟩
        ⟨':' :: more, i + w.length, ln, c + w.length⟩ :=
      Point.ComesTo.blanks 0 (.cons ⟨rfl, rfl, by decide⟩)
    have hread := Scanner.plain_of_read hnote (Scanner.inFlow_eq_false rfl) hplain
    rw [← Scanner.read_of_isWord hs hw, if_neg Bool.false_ne_true,
      Scanner.skipLineComment_of_comesTo hcomes] at hread
    refine ⟨_, h.fetch.trans hread, ?_, rfl⟩
    have hgiven := h.given_le
    rw [← closed_of_le (v := v.keyed w more) (by simp [keyed, hpoint]; omega)]
    refine Scanner.at_closed false h.margin (by rw [keyed, hpoint]; exact hcomes) rfl
      ?_ ⟨rfl, rfl⟩ ?_ ⟨_, rfl, ?_, rfl, ?_, ?_, ?_, ?_⟩
    · simp [Scanner.addTo, Scanner.push, Scanner.allowKey, Scanner.arrived, keyed]
    · simp [Scanner.addTo, Scanner.push, Scanner.allowKey, Scanner.arrived, keyed]
      omega
    · simp [Scanner.arrived]
      exact decide_eq_decide.mpr Iff.rfl
    · simpa [Scanner.addTo, Scanner.push, Scanner.allowKey, Scanner.arrived] using hgiven
    · simp [Scanner.addTo, Scanner.push, Scanner.allowKey, Scanner.arrived]
    · simp [keyed, Scanner.arrived]
    · simpa [keyed, Scanner.arrived] using hlong
  rest := by
    obtain ⟨d, w, rfl⟩ := List.exists_cons_of_ne_nil hw.1
    rw [keyed, hpoint]
    simp only [List.length_append, List.length_cons]
    omega
  size := by simp [keyed]; omega
  marks hv t ht := by
    rw [keyed, List.mem_append, List.mem_singleton] at ht
    rcases ht with ht | rfl
    · exact hv t ht
    · simp

/-- What is seen behind the colon of a key. -/
def entitled (v : View) (w : List Char) (crossed : Bool) (q : Point) : View :=
  let line := v.point.line + 1
  let o := v.opened v.point.column ⟨.mappingStart, line⟩
  ⟨q, o.tokens ++ [⟨.key, line⟩, ⟨.scalar true (String.ofList w), line⟩, ⟨.value, line⟩], o.indent,
    o.outer, crossed, none⟩

/-- **The colon of a key is read**: the mark of the key is inserted, and one for a mapping if none
is open there. -/
lemma step_colon {v : View} {w more : List Char} {crossed : Bool} {q : Point}
    (hpoint : v.point = ⟨w ++ ':' :: more, i, ln, c⟩) (hmore : startsBlank more = true)
    (hq : Point.ComesTo crossed ⟨more, i + w.length + 1, ln, c + w.length + 1⟩ q)
    (hcolumn : c ≤ q.column) (hindent : v.indent ≤ c) (hdepth : v.outer.length < Scanner.maxDepth) :
    (v.keyed w more).Step (v.entitled w crossed q) where
  fetch s h := by
    obtain ⟨k, hk, rfl, -, hgiven, -, -, hreach⟩ := h.key
    have hs : (s.arrived (v.keyed w more)).point
        = ⟨':' :: more, i + w.length, ln, c + w.length⟩ := by
      rw [Scanner.arrived, keyed, hpoint]
    obtain ⟨waiting, hvalue⟩ := Scanner.exists_value (s := s.arrived (v.keyed w more)) hk rfl rfl
      hreach rfl rfl hgiven ⟨rfl, rfl⟩ hdepth
    have hread := (Scanner.read_of_colon hs hmore).trans (congrArg _ hvalue)
    rw [Option.map_some, Scanner.skipLineComment_of_comesTo (by rw [hs]; exact hq)] at hread
    have hgiven' : s.given ≤ v.tokens.length := hgiven
    have hle := v.le_opened_tokens v.point.column ⟨.mappingStart, v.point.line + 1⟩
    refine ⟨_, h.fetch.trans hread, ?_, rfl⟩
    rw [← closed_of_le (v := v.entitled w crossed q) (by
      rw [hpoint] at hle
      simp only [entitled, hpoint, opened_indent hindent]; omega)]
    refine Scanner.at_closed crossed h.margin (by rw [hs]; exact hq) rfl rfl ⟨rfl, rfl⟩
      ?_ ⟨_, rfl, fun hp => ?_⟩
    · simp [Scanner.arrived, entitled]
      omega
    · cases hp
  rest := by
    have hle := hq.rest_le
    rw [keyed, entitled]
    simp only [List.length_cons] at hle ⊢
    omega
  size := by
    have hsize := v.opened_size v.point.column ⟨.mappingStart, v.point.line + 1⟩
    simp [keyed, entitled]
    omega
  marks hv t ht := by
    rw [entitled, List.mem_append] at ht
    rcases ht with ht | ht
    · rcases mem_opened_tokens ht with ht | rfl
      · exact hv t (by simp [keyed, ht])
      · simp
    · simp only [List.mem_cons, List.not_mem_nil, or_false] at ht
      rcases ht with rfl | rfl | rfl <;> simp

/-- **A key and its colon are read.** -/
lemma steps_key {v : View} {w more : List Char} {crossed : Bool} {q : Point}
    (hpoint : v.point = ⟨w ++ ':' :: more, i, ln, c⟩) (hw : IsWord w) (hlong : w.length ≤ 1024)
    (hmore : startsBlank more = true) (hkey : v.key = none) (hallowed : v.keyAllowed = true)
    (hq : Point.ComesTo crossed ⟨more, i + w.length + 1, ln, c + w.length + 1⟩ q)
    (hcolumn : c ≤ q.column) (hindent : v.indent ≤ c) (hdepth : v.outer.length < Scanner.maxDepth) :
    v.Steps (v.entitled w crossed q) :=
  .tail (.single (step_key hpoint hw hlong hmore hkey hallowed hindent))
    (step_colon hpoint hmore hq hcolumn hindent hdepth)

end View

end Cellular.Yaml
