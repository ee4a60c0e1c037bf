import Cellular.Proofs.Yaml.Tokens

/-!
# Splitting written outlines

An outline without rows is tidy if its words are words and its texts are read back.

* `Outline.Tidy` says which outlines are, and how deep they are nested.
* `Outline.tokens` are the tokens that stand for a tidy outline.
* `Outline.Reads` says that an outline is split into them, wherever it stands in a document.
* `scan_render`: a tidy document is split into its tokens.

Documents are written with indentation, and a part of a document cannot be split into tokens without
knowing how far it is indented, which blocks are open around it, and what comes next.
`Outline.Reads` says this for one outline: in a block that is indented by less, and before something
that is indented no further than that block, it is split into its tokens, and the block around it is
as before.  The proof is an induction on tidy outlines; for lists and records the parts are read one
after the other, and the block is closed behind the last.
-/

namespace Cellular.Yaml

open ScalarStyle (ofText ofKey isShortKey)

/-! ## Tidy outlines

Words and keys are restricted to letters and digits, which is all that configurations need.
-/

/-- A key that stands in front of its colon without quotes, and is a word. -/
structure PlainKey (key : String) : Prop where
  word : IsWord key.toList
  style : ofKey key = .plain
  short : isShortKey key = true

instance (key : String) : Decidable (PlainKey key) :=
  decidable_of_iff (IsWord key.toList ∧ ofKey key = .plain ∧ isShortKey key = true)
    ⟨fun h => ⟨h.1, h.2.1, h.2.2⟩, fun h => ⟨h.word, h.style, h.short⟩⟩

namespace Outline

/-- Outlines that are nested at most `d` deep, without rows and without empty lists and records.  A
word is made of letters and digits, and so is a key; a text is one, or it stands in single quotes or
in a block of lines. -/
inductive Tidy : Nat → Outline → Prop
  | word {d : Nat} {w : String} (hword : IsWord w.toList) : Tidy d (.word w)
  | plain {d : Nat} {s : String} (hstyle : ofText s = .plain) (hword : IsWord s.toList) :
      Tidy d (.text s)
  | single {d : Nat} {s : String} (hstyle : ofText s = .single)
      (hbreaks : ∀ c ∈ s.toList, isBreak c = false) : Tidy d (.text s)
  | block {d : Nat} {s : String} (hstyle : ofText s = .lines) (htab : s.toList.head? ≠ some '\t') :
      Tidy d (.text s)
  | list {d : Nat} {items : List Outline} (hne : items ≠ []) (hitems : ∀ t ∈ items, Tidy d t) :
      Tidy (d + 1) (.list items)
  | record {d : Nat} {entries : List (String × Outline)} (hne : entries ≠ [])
      (hkeys : ∀ e ∈ entries, PlainKey e.1)
      (hvalues : ∀ e ∈ entries, Tidy d e.2) : Tidy (d + 1) (.record entries)

/-! ## Tokens

A token knows its line, for errors; so the tokens of an outline depend on the line where it starts.
-/

mutual

/-- The tokens of an outline that starts in a line. -/
def tokens (line : Nat) : Outline → List Token
  | .word w => [⟨.scalar true w, line⟩]
  | .text s => [⟨.scalar (decide (ofText s = .plain)) s, line⟩]
  | .row _ => []
  | .list items =>
      ⟨.sequenceStart, line⟩ :: itemTokens line items
        ++ [⟨.blockEnd, line + (itemLines items).length⟩]
  | .record entries =>
      ⟨.mappingStart, line⟩ :: entryTokens line entries
        ++ [⟨.blockEnd, line + (recordLines entries).length⟩]

/-- The tokens of the items of a list. -/
def itemTokens (line : Nat) : List Outline → List Token
  | [] => []
  | t :: ts => ⟨.entry, line⟩ :: t.tokens line ++ itemTokens (line + t.lines.length) ts

/-- The tokens of the entries of a record.  A list or a record starts in the line below its key. -/
def entryTokens (line : Nat) : List (String × Outline) → List Token
  | [] => []
  | (key, value) :: more =>
      ⟨.key, line⟩ :: ⟨.scalar true key, line⟩ :: ⟨.value, line⟩ ::
        value.tokens (if value.isBlock then line + 1 else line)
        ++ entryTokens (line + (entryLines key value.isBlock value.lines).length) more

end

end Outline

/-! ## Lines on a page

The first line of a part may stand behind a dash, and the part is then indented as far as what
stands behind the dash.
-/

lemma length_le_utf8ByteSize (s : String) : s.toList.length ≤ s.utf8ByteSize := by
  have hsize : ∀ cs : List Char, cs.length ≤ cs.utf8Encode.size := by
    intro cs
    induction cs with
    | nil => exact Nat.zero_le _
    | cons c cs ih =>
        have hc := c.utf8Size_pos
        rw [List.utf8Encode_cons, ByteArray.size_append, List.length_cons,
          List.utf8Encode_singleton, List.size_toByteArray, String.length_utf8EncodeChar]
        omega
  have h := hsize s.toList
  rwa [String.utf8Encode_toList] at h

namespace Line

/-- Lines that are indented by `n`, from the first character of the first one on. -/
def hung (n : Nat) : List Line → List Char
  | [] => []
  | l :: ls => l.text.toList ++ l.ending :: ls.flatMap (Line.laid n)

/-- The first of some lines shows where it starts. -/
def Shows (ls : List Line) : Prop :=
  ∃ l more d cs, ls = l :: more ∧ l.text.toList = d :: cs ∧
    isGapChar d = false ∧ isBreak d = false ∧ d ≠ '#'

lemma laid_indented (n : Nat) (l : Line) : l.indented.laid n = l.laid (n + 2) := by
  rw [indented]
  cases h : l.text.isEmpty with
  | true => simp [laid, h]
  | false =>
      have htext : ("  " ++ l.text).isEmpty = false := by
        simp
      simp [laid, h, htext, List.replicate_add]

lemma flatMap_map_indented (n : Nat) (ls : List Line) :
    (ls.map indented).flatMap (laid n) = ls.flatMap (laid (n + 2)) := by
  rw [List.flatMap_map]
  exact congrArg (fun f => ls.flatMap f) (funext fun l => laid_indented n l)

variable {ls ls' : List Line} {n : Nat}

lemma Shows.ne_nil (h : Shows ls) : ls ≠ [] := by
  obtain ⟨l, more, d, cs, rfl, -⟩ := h
  nofun

lemma Shows.fresh (h : Shows ls) (n : Nat) (more : List Char) : Fresh (hung n ls ++ more) := by
  obtain ⟨l, ls, d, cs, rfl, htext, hd⟩ := h
  rw [hung, htext]
  exact .cons hd

/-- Lines that show where they start are laid where they are indented. -/
lemma Shows.flatMap_laid (h : Shows ls) (n : Nat) :
    ls.flatMap (laid n) = List.replicate n ' ' ++ hung n ls := by
  obtain ⟨l, ls, d, cs, rfl, htext, -⟩ := h
  have hne : l.text.isEmpty = false := by
    rw [Bool.eq_false_iff, ne_eq, String.isEmpty_iff]
    rintro hempty
    simp [hempty] at htext
  simp [hung, laid, hne]

lemma Shows.append (h : Shows ls) (ls' : List Line) : Shows (ls ++ ls') := by
  obtain ⟨l, more, d, cs, rfl, hd⟩ := h
  exact ⟨l, more ++ ls', d, cs, rfl, hd⟩

lemma hung_append (hne : ls ≠ []) : hung n (ls ++ ls') = hung n ls ++ ls'.flatMap (laid n) := by
  cases ls with
  | nil => exact absurd rfl hne
  | cons l ls => simp [hung]

lemma hung_hang (hne : ls ≠ []) (lead : String) :
    hung n (hang lead ls) = lead.toList ++ hung (n + 2) ls := by
  cases ls with
  | nil => exact absurd rfl hne
  | cons l ls => simp [hung, hang, flatMap_map_indented]

lemma length_hang (hne : ls ≠ []) (lead : String) : (hang lead ls).length = ls.length := by
  cases ls with
  | nil => exact absurd rfl hne
  | cons l ls => simp [hang]

lemma hung_zero (hne : ls ≠ []) : hung 0 ls = ls.flatMap (laid 0) := by
  cases ls with
  | nil => exact absurd rfl hne
  | cons l ls => simp [hung, laid_zero]

end Line

open Line (hung hang Shows)

/-! ## Parts of a block

The items of a list and the entries of a record are read in the same way, up to the marks.
-/

namespace View

variable {v : View} {c d m p : Nat} {mark : Mark} {ls ls' : List Line} {r : List Char}
  {f g : Nat → List Token}

/-- What is seen behind parts of a block, which they open unless it is open. -/
def behind (v : View) (column : Nat) (mark : Mark) (tokens : List Token) (q : Point) : View :=
  let o := v.opened column ⟨mark, v.point.line + 1⟩
  closed ⟨q, o.tokens ++ tokens, o.indent, o.outer, true, none⟩

/-- Lines from a column on are read as parts of a block; inside of the block, others are nested at
most `d` deep. -/
def ReadsParts (c : Nat) (mark : Mark) (d : Nat) (ls : List Line) (tokens : Nat → List Token) :
    Prop :=
  ∀ ⦃v : View⦄ ⦃r : List Char⦄ ⦃i ln m : Nat⦄, Fresh r → m ≤ c →
    v.point = ⟨hung c ls ++ (List.replicate m ' ' ++ r), i, ln, c⟩ → v.key = none →
    v.keyAllowed = true → v.indent ≤ c →
    (v.opened c ⟨mark, ln + 1⟩).outer.length + d < Scanner.maxDepth →
    ∃ j, v.Steps (v.behind c mark (tokens (ln + 1)) ⟨r, j, ln + ls.length, m⟩)

lemma opened_of_eq (h : v.indent = c) (u : Token) : v.opened c u = v := by
  rw [opened, if_neg (by omega)]

/-- **Parts of a block are read one after the other.** -/
lemma ReadsParts.append (h : ReadsParts c mark d ls f) (h' : ReadsParts c mark d ls' g)
    (hne : ls ≠ []) (hshows : Shows ls') :
    ReadsParts c mark d (ls ++ ls') fun line => f line ++ g (line + ls.length) := by
  intro v r i ln m hr hm hpoint hkey hallowed hindent hdepth
  have htext : hung c (ls ++ ls') ++ (List.replicate m ' ' ++ r)
      = hung c ls ++ (List.replicate c ' ' ++ (hung c ls' ++ (List.replicate m ' ' ++ r))) := by
    rw [Line.hung_append hne, hshows.flatMap_laid]
    simp
  rw [htext] at hpoint
  obtain ⟨j, hsteps⟩ := h (hshows.fresh c _) (Nat.le_refl c) hpoint hkey hallowed hindent hdepth
  have ho := opened_indent hindent ⟨mark, ln + 1⟩
  -- the block is open now, and the next part starts where it does
  set o := v.opened c ⟨mark, ln + 1⟩ with hopened
  set q : Point := ⟨hung c ls' ++ (List.replicate m ' ' ++ r), j, ln + ls.length, c⟩ with hq
  obtain ⟨w, hw⟩ : ∃ w : View, w = ⟨q, o.tokens ++ f (ln + 1), c, o.outer, true, none⟩ := ⟨_, rfl⟩
  have hbehind : v.behind c mark (f (ln + 1)) q = w := by
    rw [behind, hpoint, ← hopened, hw, ho]
    exact closed_of_le (Int.le_refl _)
  have hwindent : w.indent = c := by rw [hw]
  obtain ⟨j', hsteps'⟩ := h' (v := w) hr hm (by rw [hw, hq]) (by rw [hw]) (by rw [hw])
    (Int.le_of_eq hwindent) (by rwa [opened_of_eq hwindent, hw])
  rw [hbehind] at hsteps
  refine ⟨j', hsteps.trans ?_⟩
  convert hsteps' using 1
  rw [behind, behind, opened_of_eq hwindent, hpoint, ← hopened, hw]
  simp only [ho, List.append_assoc, List.length_append, Nat.add_assoc, Nat.add_comm 1]

/-- A block is closed where the text goes on with less indentation. -/
lemma behind_eq_closed {ts : List Token} {i j ln line : Nat} {cs : List Char}
    (hindent : v.indent = p) (hm : m ≤ p) (hpoint : v.point = ⟨cs, i, ln, p + 2⟩) :
    v.behind (p + 2) mark ts ⟨r, j, line, m⟩ = closed ⟨⟨r, j, line, m⟩,
      v.tokens ++ (⟨mark, ln + 1⟩ :: ts ++ [⟨.blockEnd, line + 1⟩]), p, v.outer, true, none⟩ := by
  have hlt : v.indent < (p + 2 : Nat) := by omega
  have hm' : (m : Int) < (p + 2 : Nat) := by omega
  rw [behind, opened, if_pos hlt, hpoint, hindent, closed, closed]
  simp only [Scanner.closeBlocks, if_pos hm']
  simp

end View

/-! ## Lines of tidy outlines

Each outline begins with a character that shows its column.
-/

namespace Outline

variable {d : Nat} {t : Outline}

/-- A text without breaks is one line. -/
lemma split_of_not_break {acc cs : List Char} (h : ∀ c ∈ cs, isBreak c = false) :
    Line.split acc cs = [⟨String.ofList (acc.reverse ++ cs), '\n'⟩] := by
  induction cs generalizing acc with
  | nil => simp [Line.split]
  | cons c cs ih =>
      rw [List.forall_mem_cons] at h
      rw [Line.split, h.1, if_neg Bool.false_ne_true, ih h.2]
      simp

lemma mem_doubledQuote {c e : Char} (h : c ∈ doubledQuote e) : c = e := by
  rw [doubledQuote] at h
  split at h <;> simp_all

/-- A text in single quotes stands on one line, if it has no breaks. -/
lemma write_single {s : String} (h : ∀ c ∈ s.toList, isBreak c = false) :
    ScalarStyle.single.write s
      = [⟨String.ofList ('\'' :: singleQuoted s.toList), '\n'⟩] := by
  have hquoted : ∀ c ∈ s.toList.flatMap doubledQuote, isBreak c = false := by
    intro c hc
    obtain ⟨e, he, hc⟩ := List.mem_flatMap.mp hc
    exact mem_doubledQuote hc ▸ h e he
  have hbreaks : ∀ c ∈ '\'' :: s.toList.flatMap doubledQuote ++ ['\''], isBreak c = false := by
    rw [List.forall_mem_append, List.forall_mem_cons]
    exact ⟨⟨rfl, hquoted⟩, by decide⟩
  rw [ScalarStyle.write, split_of_not_break hbreaks]
  rfl

lemma shows_lines_text {s : String} {d : Char} {cs : List Char} {ls : List Line} {l : Line}
    (hlines : (ofText s).write s = l :: ls) (htext : l.text.toList = d :: cs)
    (hd : isGapChar d = false ∧ isBreak d = false ∧ d ≠ '#') : Shows (Outline.text s).lines := by
  rw [lines, hlines]
  exact ⟨l, ls, d, cs, rfl, htext, hd⟩

lemma shows_of_isWord {w : String} {ls : List Line} {more : List Char} {l : Line}
    (h : IsWord w.toList) (hl : l.text.toList = w.toList ++ more) : Shows (l :: ls) := by
  obtain ⟨d, cs, hcs⟩ := List.exists_cons_of_ne_nil h.1
  have hd : d.isAlphanum = true := h.2 d (by simp [hcs])
  exact ⟨l, ls, d, cs ++ more, rfl, by rw [hl, hcs, List.cons_append], isGapChar_of_isAlphanum hd,
    isBreak_of_isAlphanum hd, ne_of_isAlphanum hd rfl⟩

/-- The lines of an entry, with a key in front of its colon. -/
lemma entryLines_eq {key : String} (h : PlainKey key) (block : Bool) (value : List Line) :
    entryLines key block value
      = if block then ⟨key ++ ":", '\n'⟩ :: value.map Line.indented
        else hang (key ++ ": ") value := by
  rw [entryLines, h.style, h.short]
  simp [ScalarStyle.write, String.join]

lemma exists_entryLines {key : String} (h : PlainKey key) (block : Bool) (value : List Line) :
    ∃ l ls more, entryLines key block value = l :: ls ∧ l.text.toList = key.toList ++ more := by
  rw [entryLines_eq h]
  cases block with
  | true => exact ⟨_, _, [':'], rfl, by simp⟩
  | false =>
      cases value with
      | nil => exact ⟨_, _, [':', ' '], rfl, by simp⟩
      | cons l value => exact ⟨_, _, [':', ' '] ++ l.text.toList, rfl, by simp⟩

lemma lines_list {items : List Outline} (hne : items ≠ []) :
    (list items).lines = itemLines items := by
  cases items with
  | nil => exact absurd rfl hne
  | cons t ts => rw [lines]; simp

lemma lines_record {entries : List (String × Outline)} (hne : entries ≠ []) :
    (record entries).lines = recordLines entries := by
  cases entries with
  | nil => exact absurd rfl hne
  | cons t ts => rw [lines]; simp

lemma shows_hang_dash (ls : List Line) : Shows (hang "- " ls) := by
  cases ls with
  | nil => exact ⟨_, _, '-', [' '], rfl, rfl, rfl, rfl, by decide⟩
  | cons l ls =>
      exact ⟨_, _, '-', ' ' :: l.text.toList, rfl, by simp, rfl, rfl, by decide⟩

lemma shows_itemLines {items : List Outline} (hne : items ≠ []) : Shows (itemLines items) := by
  cases items with
  | nil => exact absurd rfl hne
  | cons t ts =>
      rw [itemLines]
      exact (shows_hang_dash _).append _

lemma shows_entryLines {key : String} (h : PlainKey key) (block : Bool) (value : List Line) :
    Shows (entryLines key block value) := by
  obtain ⟨l, ls, more, hlines, htext⟩ := exists_entryLines h block value
  rw [hlines]
  exact shows_of_isWord h.word htext

lemma shows_recordLines {entries : List (String × Outline)} (hne : entries ≠ [])
    (hkeys : ∀ e ∈ entries, PlainKey e.1) : Shows (recordLines entries) := by
  cases entries with
  | nil => exact absurd rfl hne
  | cons e more =>
      rw [recordLines]
      exact (shows_entryLines (hkeys e List.mem_cons_self) _ _).append _

/-- The lines of a tidy outline show where they start. -/
lemma Tidy.shows (h : t.Tidy d) : Shows t.lines := by
  cases h with
  | @word _ w hword =>
      rw [lines]
      exact shows_of_isWord hword (List.append_nil _).symm
  | @plain _ s hstyle hword =>
      rw [lines, hstyle]
      exact shows_of_isWord hword (List.append_nil _).symm
  | @single _ s hstyle hbreaks =>
      have hlines := (congrArg (ScalarStyle.write · s) hstyle).trans (write_single hbreaks)
      exact shows_lines_text hlines (String.toList_ofList ..) ⟨rfl, rfl, by decide⟩
  | @block _ s hstyle =>
      have hlines := (congrArg (ScalarStyle.write · s) hstyle).trans (write_lines s)
      exact shows_lines_text hlines (toList_linesHeader s.toList) ⟨rfl, rfl, by decide⟩
  | list hne hitems =>
      rw [lines_list hne]
      exact shows_itemLines hne
  | record hne hkeys hvalues =>
      rw [lines_record hne]
      exact shows_recordLines hne hkeys

/-! ## Splitting

One lemma for each form of an outline, and then the induction.
-/

/-- An outline is split into its tokens where it stands in a block that is indented by less; blocks
are nested at most `d` deep in it. -/
def Reads (d : Nat) (t : Outline) : Prop :=
  ∀ ⦃v : View⦄ ⦃r : List Char⦄ ⦃i ln c p m : Nat⦄, Fresh r → m ≤ p →
    v.point = ⟨hung (p + 2) t.lines ++ (List.replicate m ' ' ++ r), i, ln, c⟩ → v.key = none →
    v.indent = p → p < c → (t.isBlock = true → c = p + 2 ∧ v.keyAllowed = true) →
    v.outer.length + d < Scanner.maxDepth →
    ∃ j, v.Steps (View.closed ⟨⟨r, j, ln + t.lines.length, m⟩, v.tokens ++ t.tokens (ln + 1), p,
      v.outer, true, none⟩)

lemma reads_word {w : String} (hword : IsWord w.toList) : (word w).Reads d := by
  intro v r i ln c p m hr hm hpoint hkey hindent hc _ _
  have htext : hung (p + 2) (word w).lines = w.toList ++ ['\n'] := by simp [lines, hung]
  rw [htext, List.append_assoc] at hpoint
  have hstep := View.step_word hpoint hword hr hkey (by omega) (by omega)
  refine ⟨i + w.toList.length + 1 + m, .single ?_⟩
  simpa [View.after, lines, tokens, hindent] using hstep

lemma reads_plain {s : String} (hstyle : ofText s = .plain) (hword : IsWord s.toList) :
    (text s).Reads d := by
  have hlines : (text s).lines = (word s).lines := by simp [lines, hstyle, ScalarStyle.write]
  have htokens : ∀ line, (text s).tokens line = (word s).tokens line := by simp [tokens, hstyle]
  intro v r i ln c p m hr hm hpoint hkey hindent hc _ hdepth
  rw [hlines] at hpoint ⊢
  rw [htokens]
  exact reads_word hword hr hm hpoint hkey hindent hc (by simp [isBlock]) hdepth

lemma reads_single {s : String} (hstyle : ofText s = .single)
    (hbreaks : ∀ c ∈ s.toList, isBreak c = false) : (text s).Reads d := by
  intro v r i ln c p m hr hm hpoint hkey hindent hc _ _
  have htext : hung (p + 2) (text s).lines = '\'' :: (singleQuoted s.toList ++ ['\n']) := by
    simp [lines, hstyle, write_single hbreaks, hung]
  rw [htext, List.cons_append, List.append_assoc] at hpoint
  have hstep := View.step_single hpoint hbreaks hr hkey (by omega)
  refine ⟨i + 1 + (singleQuoted s.toList).length + 1 + m, .single ?_⟩
  simpa [View.after, lines, tokens, hindent, hstyle, write_single hbreaks] using hstep

lemma fitsLines_of_ofText {s : String} (hstyle : ofText s = .lines) :
    fitsLines s.toList = true ∧ s.toList ≠ [] := by
  have hbreak : s.toList.contains '\n' = true := by
    by_contra hbreak
    rw [ofText, if_neg hbreak, ScalarStyle.least] at hstyle
    split_ifs at hstyle
  rw [ofText, if_pos hbreak, ScalarStyle.ofLines] at hstyle
  split_ifs at hstyle with hfits
  exact ⟨hfits, fun hnil => by simp [hnil] at hbreak⟩

lemma fitsSingle_of_ofText {s : String} (hstyle : ofText s = .single) :
    fitsSingle s.toList = true := by
  rw [ofText, ScalarStyle.ofLines, ScalarStyle.least] at hstyle
  split_ifs at hstyle
  assumption

lemma reads_block {s : String} (hstyle : ofText s = .lines) (htab : s.toList.head? ≠ some '\t') :
    (text s).Reads d := by
  intro v r i ln c p m hr hm hpoint hkey hindent hc _ _
  have hlines : (text s).lines = ⟨linesHeader s.toList, '\n'⟩ :: textLines s.toList := by
    rw [lines, hstyle, write_lines]
  have htext : hung (p + 2) (text s).lines = '|' :: (headerOf s.toList ++ '\n' ::
      (textLines s.toList).flatMap (Line.laid (p + 2))) := by
    rw [hlines, hung, toList_linesHeader, List.cons_append]
  obtain ⟨hfits, hne⟩ := fitsLines_of_ofText hstyle
  obtain ⟨j, hstep⟩ := View.exists_step_lines ln (n := m) (i := i) (c := c)
    (by rw [hpoint, htext]; simp) hfits hne htab hr hkey hindent hm
  refine ⟨j, .single ?_⟩
  rw [hlines]
  simpa [View.after, tokens, hindent, hstyle, Nat.add_assoc, Nat.add_comm 1] using hstep

/-- **An item of a list is read** behind its dash. -/
lemma Reads.item {c : Nat} (h : t.Reads d) (hshows : Shows t.lines) :
    View.ReadsParts c .sequenceStart d (hang "- " t.lines)
      fun line => ⟨.entry, line⟩ :: t.tokens line := by
  intro v r i ln m hr hm hpoint hkey hallowed hindent hdepth
  have htext : hung c (hang "- " t.lines) ++ (List.replicate m ' ' ++ r)
      = '-' :: ' ' :: (hung (c + 2) t.lines ++ (List.replicate m ' ' ++ r)) := by
    rw [Line.hung_hang hshows.ne_nil]
    rfl
  rw [htext] at hpoint
  set o := v.opened c ⟨.sequenceStart, ln + 1⟩ with ho
  have hindent' : o.indent = c := View.opened_indent hindent _
  have hentered : v.entered = ⟨⟨hung (c + 2) t.lines ++ (List.replicate m ' ' ++ r), i + 2, ln,
      c + 2⟩, o.tokens ++ [⟨.entry, ln + 1⟩], o.indent, o.outer, true, none⟩ := by
    rw [View.entered, hpoint]
    rfl
  have hstep := View.step_dash hpoint (hshows.fresh _ _) hkey hallowed hindent
    ((v.le_opened_outer _ _).trans_lt (Nat.lt_of_le_of_lt (Nat.le_add_right _ _) hdepth))
  obtain ⟨j, hsteps⟩ := h (v := v.entered) (c := c + 2) hr hm (by rw [hentered]) (by rw [hentered])
    (by rw [hentered, hindent']) (by omega) (fun _ => ⟨rfl, by rw [hentered]⟩)
    (by rwa [hentered])
  refine ⟨j, .head hstep ?_⟩
  rw [Line.length_hang hshows.ne_nil, View.behind, hpoint, ← ho, hindent']
  simpa [hentered] using hsteps

/-- Where the value of a key stands. -/
lemma exists_value_place {key : String} {value : List Line} (hkey : PlainKey key)
    (hshows : Shows value) (block : Bool) (c i ln m : Nat) (r : List Char) :
    ∃ crossed more j, hung c (entryLines key block value) ++ (List.replicate m ' ' ++ r)
        = key.toList ++ ':' :: more ∧ startsBlank more = true ∧ (block = true → crossed = true) ∧
      Point.ComesTo crossed ⟨more, i + key.toList.length + 1, ln, c + key.toList.length + 1⟩
        ⟨hung (c + 2) value ++ (List.replicate m ' ' ++ r), j,
          if block then ln + 1 else ln, if block then c + 2 else c + key.toList.length + 2⟩ := by
  have hfresh := hshows.fresh (c + 2) (List.replicate m ' ' ++ r)
  rw [entryLines_eq hkey]
  cases block with
  | true =>
      refine ⟨true, '\n' :: (List.replicate (c + 2) ' ' ++ (hung (c + 2) value
        ++ (List.replicate m ' ' ++ r))), _, ?_, rfl, fun _ => rfl, .line (c + 2) hfresh⟩
      simp [hung, Line.flatMap_map_indented, hshows.flatMap_laid]
  | false =>
      refine ⟨false, ' ' :: (hung (c + 2) value ++ (List.replicate m ' ' ++ r)), _, ?_, rfl, nofun,
        .blanks 1 hfresh⟩
      simp [Line.hung_hang hshows.ne_nil]

/-- **An entry of a record is read**, a list or a record below its key. -/
lemma Reads.entry {c : Nat} {key : String} (h : t.Reads d) (hshows : Shows t.lines)
    (hplain : PlainKey key) :
    View.ReadsParts c .mappingStart d (entryLines key t.isBlock t.lines) fun line =>
      ⟨.key, line⟩ :: ⟨.scalar true key, line⟩ :: ⟨.value, line⟩ ::
        t.tokens (if t.isBlock then line + 1 else line) := by
  intro v r i ln m hr hm hpoint hkey hallowed hindent hdepth
  obtain ⟨crossed, more, j, htext, hmore, hcrossed, hcomes⟩ :=
    exists_value_place hplain hshows t.isBlock c i ln m r
  rw [htext] at hpoint
  have hlong : key.toList.length ≤ 1024 := by
    have hlength := length_le_utf8ByteSize key
    have hshort := hplain.short
    rw [isShortKey, Bool.and_eq_true, decide_eq_true_eq, ScalarStyle.longestKey] at hshort
    omega
  set o := v.opened c ⟨.mappingStart, ln + 1⟩ with ho
  have hindent' : o.indent = c := View.opened_indent hindent _
  set q : Point := ⟨hung (c + 2) t.lines ++ (List.replicate m ' ' ++ r), j,
    if t.isBlock then ln + 1 else ln, if t.isBlock then c + 2 else c + key.toList.length + 2⟩
    with hq
  have hcolumn : c < q.column := by
    rw [hq]
    dsimp only
    split <;> omega
  have hentitled : v.entitled key.toList crossed q = ⟨q, o.tokens ++ [⟨.key, ln + 1⟩,
      ⟨.scalar true key, ln + 1⟩, ⟨.value, ln + 1⟩], o.indent, o.outer, crossed, none⟩ := by
    rw [View.entitled, hpoint]
    simp [ho]
  have hsteps := View.steps_key hpoint hplain.word hlong hmore hkey hallowed hcomes hcolumn.le
    hindent ((v.le_opened_outer _ _).trans_lt (Nat.lt_of_le_of_lt (Nat.le_add_right _ _) hdepth))
  rw [hentitled] at hsteps
  obtain ⟨j', hsteps'⟩ := h (v := ⟨q, o.tokens ++ [⟨.key, ln + 1⟩, ⟨.scalar true key, ln + 1⟩,
    ⟨.value, ln + 1⟩], o.indent, o.outer, crossed, none⟩) hr hm hq rfl hindent' hcolumn
    (fun hblock => ⟨by simp [hblock], hcrossed hblock⟩) hdepth
  refine ⟨j', hsteps.trans ?_⟩
  have hlines : ln + (entryLines key t.isBlock t.lines).length
      = (if t.isBlock then ln + 1 else ln) + t.lines.length := by
    rw [entryLines_eq hplain]
    split
    · simp
      omega
    · rw [Line.length_hang hshows.ne_nil]
  have hline : (if t.isBlock then ln + 1 else ln) + 1
      = if t.isBlock then ln + 1 + 1 else ln + 1 := by
    split <;> rfl
  rw [hindent', hline] at hsteps'
  rw [hlines, View.behind, hpoint, ← ho, hindent']
  simpa using hsteps'

lemma readsParts_items {c : Nat} :
    ∀ {items : List Outline}, items ≠ [] → (∀ t ∈ items, t.Reads d ∧ Shows t.lines) →
      View.ReadsParts c .sequenceStart d (itemLines items) fun line => itemTokens line items
  | [t], _, h => by
      obtain ⟨hreads, hshows⟩ := h t List.mem_cons_self
      simpa [itemLines, itemTokens] using hreads.item (c := c) hshows
  | t :: t' :: ts, _, h => by
      rw [List.forall_mem_cons] at h
      obtain ⟨⟨hreads, hshows⟩, hmore⟩ := h
      have hne := List.cons_ne_nil t' ts
      have happend := (hreads.item (c := c) hshows).append (readsParts_items hne hmore)
        (shows_hang_dash _).ne_nil (shows_itemLines hne)
      rw [Line.length_hang hshows.ne_nil] at happend
      rw [itemLines]
      simpa [itemTokens] using happend

lemma readsParts_entries {c : Nat} :
    ∀ {entries : List (String × Outline)}, entries ≠ [] → (∀ e ∈ entries, PlainKey e.1) →
      (∀ e ∈ entries, e.2.Reads d ∧ Shows e.2.lines) →
      View.ReadsParts c .mappingStart d (recordLines entries) fun line => entryTokens line entries
  | [(key, t)], _, hkeys, h => by
      obtain ⟨hreads, hshows⟩ := h _ List.mem_cons_self
      have hentry := hreads.entry (c := c) hshows (hkeys _ List.mem_cons_self)
      simpa [recordLines, entryTokens] using hentry
  | (key, t) :: e :: more, _, hkeys, h => by
      rw [List.forall_mem_cons] at hkeys h
      obtain ⟨⟨hreads, hshows⟩, hmore⟩ := h
      have hne := List.cons_ne_nil e more
      have happend := (hreads.entry (c := c) hshows hkeys.1).append
        (readsParts_entries hne hkeys.2 hmore) (shows_entryLines hkeys.1 _ _).ne_nil
        (shows_recordLines hne hkeys.2)
      rw [recordLines]
      simpa [entryTokens] using happend

/-- **A block is read**, and closed where the text goes on with less indentation. -/
lemma reads_of_parts {mark : Mark} {f : Nat → List Token} (hblock : t.isBlock = true)
    (hparts : ∀ c, View.ReadsParts c mark d t.lines f)
    (htokens : ∀ line,
      t.tokens line = ⟨mark, line⟩ :: f line ++ [⟨.blockEnd, line + t.lines.length⟩]) :
    t.Reads (d + 1) := by
  intro v r i ln c p m hr hm hpoint hkey hindent hc hplace hdepth
  obtain ⟨rfl, hallowed⟩ := hplace hblock
  have hlt : v.indent < (p + 2 : Nat) := by omega
  obtain ⟨j, hsteps⟩ := hparts (p + 2) hr (hm.trans (Nat.le_add_right p 2)) hpoint hkey hallowed
    (Int.le_of_lt hlt) (by
      rw [View.opened, if_pos hlt, List.length_cons]
      omega)
  refine ⟨j, ?_⟩
  rw [View.behind_eq_closed hindent hm hpoint] at hsteps
  rw [htokens, Nat.add_right_comm ln 1]
  exact hsteps

/-- **A tidy outline is split into its tokens.** -/
theorem Tidy.reads (h : t.Tidy d) : t.Reads d := by
  induction h with
  | word hword => exact reads_word hword
  | plain hstyle hword => exact reads_plain hstyle hword
  | single hstyle hbreaks => exact reads_single hstyle hbreaks
  | block hstyle htab => exact reads_block hstyle htab
  | @list d items hne hitems ih =>
      have hparts : ∀ c, View.ReadsParts c .sequenceStart d (itemLines items) _ := fun c =>
        readsParts_items hne fun t ht => ⟨ih t ht, (hitems t ht).shows⟩
      rw [← lines_list hne] at hparts
      refine reads_of_parts (by simp [isBlock, hne]) hparts fun line => ?_
      rw [lines_list hne, Outline.tokens]
  | @record d entries hne hkeys hvalues ih =>
      have hparts : ∀ c, View.ReadsParts c .mappingStart d (recordLines entries) _ := fun c =>
        readsParts_entries hne hkeys fun e he => ⟨ih e he, (hvalues e he).shows⟩
      rw [← lines_record hne] at hparts
      refine reads_of_parts (by simp [isBlock, hne]) hparts fun line => ?_
      rw [lines_record hne, Outline.tokens]

end Outline

end Cellular.Yaml
