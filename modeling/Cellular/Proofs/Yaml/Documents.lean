import Mathlib
import Cellular.Proofs.Yaml.Outlines

/-!
# Reading written documents

What is written of a tidy record is read back as a tree of its parts.

* `allowed_of_mem_lines`: only characters that may stand in a document are written.
* `scan_render`: the document is split into the tokens of the record.
* `Outline.node` is the tree of a tidy outline; `Outline.Tidy.yields`: it is made of the tokens.
* `parse_render`: the document is read.

The three stages of reading are passed by what was written: the characters are allowed, the text is
split into tokens, and the tokens are made into a tree.  The last stage is a recursive descent over
tokens with fuel.  Its lemmas say of each of its steps that it takes the tokens of one part and
leaves what stands behind, if there is fuel enough for the part.
-/

namespace Cellular.Yaml

open ScalarStyle (ofText)

/-! ## Characters

The printer escapes what may not stand in a document, and a tidy outline needs no escapes.
-/

/-- Nothing in a line is kept out of documents. -/
def Line.Allowed (l : Line) : Prop := ∀ c ∈ l.laid 0, isAllowed c = true

lemma isAllowed_of_isShown {c : Char} (h : c = '\t' ∨ isShown c = true) : isAllowed c = true := by
  rcases h with rfl | h
  · rfl
  · simp only [isShown, Bool.or_eq_true, Bool.and_eq_true, decide_eq_true_eq] at h
    simp only [isAllowed, Bool.or_eq_true, Bool.and_eq_true, decide_eq_true_eq]
    omega

lemma isAllowed_of_not_needsEscape {cs : List Char} (h : needsEscape cs = false) :
    ∀ c ∈ cs, isAllowed c = true := by
  intro c hc
  rw [needsEscape, List.any_eq_false] at h
  have hshown := h c hc
  refine isAllowed_of_isShown ?_
  simp at hshown
  tauto

lemma isAllowed_of_isAlphanum {c : Char} (h : c.isAlphanum = true) : isAllowed c = true := by
  simp only [Char.isAlphanum, Char.isAlpha, Char.isUpper, Char.isLower, Char.isDigit,
    Bool.or_eq_true, Bool.and_eq_true, decide_eq_true_eq, UInt32.le_iff_toNat_le, ge_iff_le] at h
  change ((65 ≤ c.toNat ∧ c.toNat ≤ 90) ∨ (97 ≤ c.toNat ∧ c.toNat ≤ 122)) ∨
    (48 ≤ c.toNat ∧ c.toNat ≤ 57) at h
  simp only [isAllowed, Bool.or_eq_true, Bool.and_eq_true, decide_eq_true_eq]
  omega

namespace Line

variable {l : Line} {ls : List Line} {lead : String}

lemma allowed_iff :
    l.Allowed ↔ (∀ c ∈ l.text.toList, isAllowed c = true) ∧ isAllowed l.ending = true := by
  rw [Allowed, laid_zero]
  simp [or_imp, forall_and]

lemma Allowed.behind (h : l.Allowed) (hlead : ∀ c ∈ lead.toList, isAllowed c = true) :
    Allowed { l with text := lead ++ l.text } := by
  rw [allowed_iff] at h ⊢
  refine ⟨fun c hc => ?_, h.2⟩
  rw [String.toList_append, List.mem_append] at hc
  exact hc.elim (hlead c) (h.1 c)

lemma Allowed.indented (h : l.Allowed) : l.indented.Allowed := by
  rw [Line.indented]
  split
  · exact h
  · exact h.behind (by decide)

lemma allowed_of_mem_hang (hls : ∀ l ∈ ls, l.Allowed)
    (hlead : ∀ c ∈ lead.toList, isAllowed c = true) : ∀ l ∈ hang lead ls, l.Allowed := by
  cases ls with
  | nil =>
      intro l hl
      obtain rfl := List.mem_singleton.mp hl
      exact allowed_iff.mpr ⟨hlead, rfl⟩
  | cons k ls =>
      rw [List.forall_mem_cons] at hls
      intro l hl
      rcases List.mem_cons.mp hl with rfl | hl
      · exact hls.1.behind hlead
      · obtain ⟨k', hk', rfl⟩ := List.mem_map.mp hl
        exact (hls.2 k' hk').indented

lemma allowed_of_flatMap (h : ∀ c ∈ ls.flatMap (laid 0), isAllowed c = true) :
    ∀ l ∈ ls, l.Allowed :=
  fun l hl c hc => h c (List.mem_flatMap.mpr ⟨l, hl, hc⟩)

lemma allowed_of_toList (h : ∀ c ∈ l.text.toList, isAllowed c = true) (hending : l.ending = '\n') :
    l.Allowed :=
  allowed_iff.mpr ⟨h, by rw [hending]; rfl⟩

end Line

namespace Outline

variable {d : Nat} {t : Outline}

lemma isAllowed_of_ofText {s : String} (h : ofText s = .single ∨ ofText s = .lines) :
    ∀ c ∈ s.toList, isAllowed c = true := by
  refine isAllowed_of_not_needsEscape ?_
  rcases h with hstyle | hstyle
  · have hfits := fitsSingle_of_ofText hstyle
    simp_all [fitsSingle]
  · have hfits := (fitsLines_of_ofText hstyle).1
    simp_all [fitsLines]

lemma isAllowed_of_isWord {w : List Char} (h : IsWord w) : ∀ c ∈ w, isAllowed c = true :=
  fun c hc => isAllowed_of_isAlphanum (h.2 c hc)

lemma isAllowed_headerOf (cs : List Char) : ∀ c ∈ headerOf cs, isAllowed c = true := by
  rw [headerOf]
  cases needsHint cs <;> cases chompOf cs <;> decide

lemma allowed_of_mem_entryLines {key : String} {value : List Line} {block : Bool}
    (hplain : PlainKey key) (hvalue : ∀ l ∈ value, l.Allowed) :
    ∀ l ∈ entryLines key block value, l.Allowed := by
  have hkey := isAllowed_of_isWord hplain.word
  rw [entryLines_eq hplain]
  split
  · intro l hl
    rcases List.mem_cons.mp hl with rfl | hl
    · refine Line.allowed_of_toList ?_ rfl
      rw [String.toList_append, List.forall_mem_append]
      exact ⟨hkey, by decide⟩
    · obtain ⟨k, hk, rfl⟩ := List.mem_map.mp hl
      exact (hvalue k hk).indented
  · refine Line.allowed_of_mem_hang hvalue ?_
    rw [String.toList_append, List.forall_mem_append]
    exact ⟨hkey, by decide⟩

/-- **What is written of a tidy outline may stand in a document.** -/
lemma Tidy.allowed (h : t.Tidy d) : ∀ l ∈ t.lines, l.Allowed := by
  induction h with
  | @word _ w hword =>
      rw [Outline.lines, List.forall_mem_singleton]
      exact Line.allowed_of_toList (isAllowed_of_isWord hword) rfl
  | @plain _ s hstyle hword =>
      rw [Outline.lines, hstyle, ScalarStyle.write, List.forall_mem_singleton]
      exact Line.allowed_of_toList (isAllowed_of_isWord hword) rfl
  | @single _ s hstyle hbreaks =>
      rw [Outline.lines, hstyle, write_single hbreaks, List.forall_mem_singleton]
      have hquoted : ∀ c ∈ s.toList.flatMap doubledQuote, isAllowed c = true := by
        intro c hc
        obtain ⟨e, he, hc⟩ := List.mem_flatMap.mp hc
        obtain rfl := mem_doubledQuote hc
        exact isAllowed_of_ofText (.inl hstyle) c he
      refine Line.allowed_of_toList ?_ rfl
      rw [String.toList_ofList, List.forall_mem_cons, singleQuoted, List.forall_mem_append]
      exact ⟨rfl, hquoted, by decide⟩
  | @block _ s hstyle htab =>
      rw [Outline.lines, hstyle, write_lines, List.forall_mem_cons]
      refine ⟨Line.allowed_of_toList ?_ rfl, Line.allowed_of_flatMap ?_⟩
      · rw [toList_linesHeader, List.forall_mem_cons]
        exact ⟨rfl, isAllowed_headerOf _⟩
      · rw [flatMap_textLines]
        split
        · exact isAllowed_of_ofText (.inr hstyle)
        · rw [List.forall_mem_append, List.forall_mem_singleton]
          exact ⟨isAllowed_of_ofText (.inr hstyle), rfl⟩
  | @list d items hne hitems ih =>
      rw [lines_list hne]
      clear hne hitems
      induction items with
      | nil => simp [itemLines]
      | cons u items ihitems =>
          rw [List.forall_mem_cons] at ih
          rw [itemLines, List.forall_mem_append]
          exact ⟨Line.allowed_of_mem_hang ih.1 (by decide), ihitems ih.2⟩
  | @record d entries hne hkeys hvalues ih =>
      rw [lines_record hne]
      clear hne hvalues
      induction entries with
      | nil => simp [recordLines]
      | cons e entries ihentries =>
          rw [List.forall_mem_cons] at ih hkeys
          rw [recordLines, List.forall_mem_append]
          exact ⟨allowed_of_mem_entryLines hkeys.1 ih.1, ihentries hkeys.2 ih.2⟩

/-! ## Splitting

A document is a record that starts in the first column.
-/

lemma toList_join (ls : List Line) : (Line.join ls).toList = ls.flatMap (Line.laid 0) := by
  rw [Line.join]
  induction ls with
  | nil => rfl
  | cons l ls ih => simp [Line.laid_zero, ih]

variable {entries : List (String × Outline)}

lemma exists_hung_recordLines (hne : entries ≠ []) (hkeys : ∀ e ∈ entries, PlainKey e.1) :
    ∃ c cs, Line.hung 0 (recordLines entries) = c :: cs ∧ c.isAlphanum = true := by
  cases entries with
  | nil => exact absurd rfl hne
  | cons e entries =>
      have hkey := hkeys e List.mem_cons_self
      obtain ⟨l, ls, more, hlines, htext⟩ := exists_entryLines hkey e.2.isBlock e.2.lines
      obtain ⟨c, cs, hcs⟩ := List.exists_cons_of_ne_nil hkey.word.1
      rw [recordLines, hlines, List.cons_append, Line.hung, htext, hcs]
      exact ⟨c, _, rfl, hkey.word.2 c (by simp [hcs])⟩

/-- **The document of a tidy record is split into its tokens**, between the marks of the start and
the end of the text. -/
theorem scan_render (h : (record entries).Tidy d) (hdepth : d < Scanner.maxDepth) :
    scan (record entries).render.toList = ⟨.textStart, 1⟩ :: (record entries).tokens 1
      ++ [⟨.textEnd, (record entries).lines.length + 1⟩] := by
  have hall := h.allowed
  have hshows := h.shows
  cases h with
  | @record d _ hne hkeys hvalues =>
      obtain ⟨c, cs, hhung, hc⟩ := exists_hung_recordLines hne hkeys
      rw [lines_record hne] at hall hshows ⊢
      have htext : (record entries).render.toList = Line.hung 0 (recordLines entries) := by
        rw [render, toList_join, lines_record hne, Line.hung_zero hshows.ne_nil]
      have hfresh : Fresh (Line.hung 0 (recordLines entries)) := by
        simpa using hshows.fresh 0 []
      have hparts := readsParts_entries (c := 0) hne hkeys
        fun e he => ⟨(hvalues e he).reads, (hvalues e he).shows⟩
      set v := View.start (Line.hung 0 (recordLines entries)) with hv
      have hopened : v.opened 0 ⟨.mappingStart, 0 + 1⟩ = { v with
          indent := 0, outer := [-1], tokens := v.tokens ++ [⟨.mappingStart, 1⟩] } := by
        rw [View.opened, if_pos (by simp [hv, View.start])]
        rfl
      have hpoint : v.point
          = ⟨Line.hung 0 (recordLines entries) ++ (List.replicate 0 ' ' ++ []), 0, 0, 0⟩ := by
        simp [hv, View.start]
      obtain ⟨j, hsteps⟩ := hparts .nil (Nat.le_refl 0) hpoint rfl rfl
        (by simp [hv, View.start]) (by
          rw [hopened, List.length_singleton]
          omega)
      have hbehind : v.behind 0 .mappingStart (entryTokens 1 entries)
          ⟨[], j, 0 + (recordLines entries).length, 0⟩
          = ⟨⟨[], j, 0 + (recordLines entries).length, 0⟩, [⟨.textStart, 1⟩, ⟨.mappingStart, 1⟩]
              ++ entryTokens 1 entries, 0, [-1], true, none⟩ := by
        have hline : v.point.line + 1 = 0 + 1 := rfl
        rw [View.behind, hline, hopened]
        exact View.closed_of_le (Int.le_refl 0)
      rw [hbehind] at hsteps
      rw [htext, scan_of_steps hfresh ?_ ?_ hsteps rfl rfl rfl]
      · simp [View.allTokens, Scanner.closeBlocks, tokens, Nat.add_comm 1]
      · rw [Line.hung_zero hshows.ne_nil]
        intro e he
        obtain ⟨l, hl, he⟩ := List.mem_flatMap.mp he
        exact hall l hl e he
      · rw [hhung, List.head?_cons]
        rintro hmark
        rw [Option.some.inj hmark] at hc
        exact absurd hc (by decide)

end Outline

/-! ## Trees

The tree of an outline has the lines of its parts, which errors would show.
-/

namespace Reader

/-- A step of reading takes some tokens and makes something of them, whatever stands behind them. -/
def Takes {α : Type} (m : Reads α) (ts : List Token) (a : α) : Prop :=
  ∀ ⦃r : Reader⦄ ⦃rest : List Token⦄, r.tokens = ts ++ rest →
    m r = some (a, { r with tokens := rest })

section Steps

variable {ts us : List Token} {fuel : Nat} {bare : Bool}

lemma takes_scalar (line fuel : Nat) (bare plain : Bool) (text : String) :
    Takes (node (fuel + 1) true bare) [⟨.scalar plain text, line⟩]
      (.scalar line none plain text) := by
  intro r rest hr
  simp [node, peek, skip, properties, reserve, complete, hr, bind, StateT.bind, pure, StateT.pure,
    modify, modifyGet, MonadStateOf.modifyGet, StateT.modifyGet]

lemma Takes.sequence {items : List Node} (line : Nat) (h : Takes (blockItems fuel) ts items) :
    Takes (node (fuel + 1) true bare) (⟨.sequenceStart, line⟩ :: ts)
      (.sequence line none items) := by
  intro r rest hr
  have hitems := h (r := { r with tokens := ts ++ rest }) rfl
  simp [node, peek, skip, properties, reserve, complete, hr, bind, StateT.bind, pure, StateT.pure,
    modify, modifyGet, MonadStateOf.modifyGet, StateT.modifyGet, hitems]

lemma Takes.mapping {entries : List (Node × Node)} (line : Nat)
    (h : Takes (blockEntries fuel) ts entries) :
    Takes (node (fuel + 1) true bare) (⟨.mappingStart, line⟩ :: ts)
      (.mapping line none entries) := by
  intro r rest hr
  have hentries := h (r := { r with tokens := ts ++ rest }) rfl
  simp [node, peek, skip, properties, reserve, complete, hr, bind, StateT.bind, pure, StateT.pure,
    modify, modifyGet, MonadStateOf.modifyGet, StateT.modifyGet, hentries]

lemma takes_blockItems_end (line : Nat) : Takes (blockItems (fuel + 1)) [⟨.blockEnd, line⟩] [] := by
  intro r rest hr
  simp [blockItems, expect, peek, skip, hr, bind, StateT.bind, pure, StateT.pure, modify, modifyGet,
    MonadStateOf.modifyGet, StateT.modifyGet]

lemma takes_blockEntries_end (line : Nat) :
    Takes (blockEntries (fuel + 1)) [⟨.blockEnd, line⟩] [] := by
  intro r rest hr
  simp [blockEntries, expect, peek, skip, hr, bind, StateT.bind, pure, StateT.pure, modify,
    modifyGet, MonadStateOf.modifyGet, StateT.modifyGet]

/-- What starts with some other mark is not left out. -/
lemma Takes.orEmpty {marks : List Mark} {m : Reads Node} {u : Token} {n : Node} (line : Nat)
    (h : Takes m (u :: ts) n) (hmarks : u.mark ∉ marks) :
    Takes (orEmpty marks line m) (u :: ts) n := by
  intro r rest hr
  have hm := h hr
  simp only [Reader.orEmpty, peek, hr, bind, StateT.bind, List.cons_append, List.head?_cons,
    Option.map_some, Option.bind_some, if_neg hmarks, hm]

lemma Takes.blockItems {u : Token} {item : Node} {items : List Node} (line : Nat)
    (h : Takes (node fuel true false) (u :: ts) item) (hmarks : u.mark ∉ [.entry, .blockEnd])
    (hmore : Takes (blockItems fuel) us items) :
    Takes (Reader.blockItems (fuel + 1)) (⟨.entry, line⟩ :: (u :: ts) ++ us) (item :: items) := by
  intro r rest hr
  have hitem := (h.orEmpty line hmarks) (r := { r with tokens := u :: ts ++ (us ++ rest) }) rfl
  have hitems := hmore (r := { r with tokens := us ++ rest }) rfl
  simp only [List.cons_append, List.append_assoc] at hr hitem
  simp [Reader.blockItems, peek, skip, hr, bind, StateT.bind, pure, StateT.pure, modify, modifyGet,
    MonadStateOf.modifyGet, StateT.modifyGet, hitem, hitems]

lemma Takes.entryValue {u : Token} {value : Node} (line : Nat)
    (h : Takes (node fuel true true) (u :: ts) value)
    (hmarks : u.mark ∉ [.key, .value, .blockEnd]) :
    Takes (Reader.entryValue (fuel + 1) [.key, .value, .blockEnd] true)
      (⟨.value, line⟩ :: u :: ts) value := by
  intro r rest hr
  have hvalue := (h.orEmpty line hmarks) (r := { r with tokens := u :: ts ++ rest }) rfl
  simp only [List.cons_append] at hr hvalue
  simp [Reader.entryValue, peek, skip, hr, bind, StateT.bind, modify, modifyGet,
    MonadStateOf.modifyGet, StateT.modifyGet, hvalue]

lemma Takes.blockEntries {u : Token} {value : Node} {entries : List (Node × Node)} (line : Nat)
    (name : String) (h : Takes (node fuel true true) (u :: ts) value)
    (hmarks : u.mark ∉ [.key, .value, .blockEnd])
    (hmore : Takes (blockEntries (fuel + 1)) us entries) :
    Takes (Reader.blockEntries (fuel + 2))
      (⟨.key, line⟩ :: ⟨.scalar true name, line⟩ :: ⟨.value, line⟩ :: (u :: ts) ++ us)
      ((.scalar line none true name, value) :: entries) := by
  intro r rest hr
  have hname : Takes (Reader.orEmpty [.key, .value, .blockEnd] line (node (fuel + 1) true true))
      [⟨.scalar true name, line⟩] (.scalar line none true name) :=
    (takes_scalar line fuel true true name).orEmpty line nofun
  have hkey := hname (r := { r with
    tokens := ⟨.scalar true name, line⟩ :: ⟨.value, line⟩ :: u :: ts ++ (us ++ rest) }) rfl
  have hvalue := (h.entryValue line hmarks)
    (r := { r with tokens := ⟨.value, line⟩ :: u :: ts ++ (us ++ rest) }) rfl
  have hentries := hmore (r := { r with tokens := us ++ rest }) rfl
  simp only [List.cons_append, List.append_assoc] at hr hkey hvalue
  rw [Reader.blockEntries]
  simp [peek, skip, hr, bind, StateT.bind, pure, StateT.pure, modify, modifyGet,
    MonadStateOf.modifyGet, StateT.modifyGet, hkey, hvalue, hentries]

end Steps

end Reader

namespace Outline

mutual

/-- The tree of an outline that starts in a line. -/
def node (line : Nat) : Outline → Node
  | .word w => .scalar line none true w
  | .text s => .scalar line none (decide (ofText s = .plain)) s
  | .row _ => .empty line
  | .list items => .sequence line none (itemNodes line items)
  | .record entries => .mapping line none (entryNodes line entries)

/-- The trees of the items of a list. -/
def itemNodes (line : Nat) : List Outline → List Node
  | [] => []
  | t :: ts => t.node line :: itemNodes (line + t.lines.length) ts

/-- The keys of a record and the trees of their values. -/
def entryNodes (line : Nat) : List (String × Outline) → List (Node × Node)
  | [] => []
  | (key, value) :: more =>
      (.scalar line none true key, value.node (if value.isBlock then line + 1 else line))
        :: entryNodes (line + (entryLines key value.isBlock value.lines).length) more

end

open Reader (Takes)

variable {d : Nat} {t : Outline}

/-- The first token of a tidy outline is one of its own. -/
lemma Tidy.exists_tokens (h : t.Tidy d) (line : Nat) :
    ∃ u ts, t.tokens line = u :: ts ∧ u.mark ∉ [.entry, .key, .value, .blockEnd] := by
  cases h <;> rw [Outline.tokens] <;> exact ⟨_, _, rfl, by simp⟩

/-- A tree is made of tokens, if steps are not cut short. -/
def Yields (t : Outline) : Prop :=
  ∀ line fuel bare, (t.tokens line).length ≤ fuel →
    Takes (Reader.node fuel true bare) (t.tokens line) (t.node line)

lemma takes_items {items : List Outline} (h : ∀ t ∈ items, t.Tidy d ∧ t.Yields) {last : Nat} :
    ∀ {line fuel : Nat}, (itemTokens line items).length < fuel →
      Takes (Reader.blockItems fuel) (itemTokens line items ++ [⟨.blockEnd, last⟩])
        (itemNodes line items) := by
  induction items with
  | nil =>
      rintro line (_ | fuel) hfuel
      · exact absurd hfuel (Nat.not_lt_zero _)
      · rw [itemTokens, itemNodes]
        exact Reader.takes_blockItems_end last
  | cons t ts ih =>
      rintro line (_ | fuel) hfuel
      · exact absurd hfuel (Nat.not_lt_zero _)
      · rw [List.forall_mem_cons] at h
        obtain ⟨⟨htidy, hyields⟩, hmore⟩ := h
        rw [itemTokens, itemNodes]
        rw [itemTokens] at hfuel
        simp only [List.length_append, List.length_cons] at hfuel
        have hitem := hyields line fuel false (by omega)
        obtain ⟨u, us, hus, hmark⟩ := htidy.exists_tokens line
        rw [hus] at hitem ⊢
        have hfuel' : (itemTokens (line + t.lines.length) ts).length < fuel := by omega
        have htakes := hitem.blockItems line (by simp_all) (ih hmore hfuel')
        simpa using htakes

lemma takes_entries (h : ∀ e ∈ entries, e.2.Tidy d ∧ e.2.Yields) {last : Nat} :
    ∀ {line fuel : Nat}, (entryTokens line entries).length < fuel →
      Takes (Reader.blockEntries fuel) (entryTokens line entries ++ [⟨.blockEnd, last⟩])
        (entryNodes line entries) := by
  induction entries with
  | nil =>
      rintro line (_ | fuel) hfuel
      · exact absurd hfuel (Nat.not_lt_zero _)
      · rw [entryTokens, entryNodes]
        exact Reader.takes_blockEntries_end last
  | cons e more ih =>
      obtain ⟨key, t⟩ := e
      intro line fuel hfuel
      rw [List.forall_mem_cons] at h
      obtain ⟨⟨htidy, hyields⟩, hmore⟩ := h
      rw [entryTokens, entryNodes]
      rw [entryTokens] at hfuel
      simp only [List.length_append, List.length_cons] at hfuel
      obtain ⟨fuel, rfl⟩ : ∃ f, fuel = f + 2 := ⟨fuel - 2, by omega⟩
      have hvalue := hyields (if t.isBlock then line + 1 else line) fuel true (by
        dsimp only
        omega)
      have hfuel' : (entryTokens (line + (entryLines key t.isBlock t.lines).length) more).length
          < fuel + 1 := by
        omega
      obtain ⟨u, us, hus, hmark⟩ := htidy.exists_tokens (if t.isBlock then line + 1 else line)
      rw [hus] at hvalue ⊢
      have htakes := hvalue.blockEntries line key (by simp_all) (ih hmore hfuel')
      simpa using htakes

/-- **The tokens of a tidy outline are read as its tree.** -/
theorem Tidy.yields (h : t.Tidy d) : t.Yields := by
  induction h with
  | word | plain | single | block =>
      rintro line (_ | fuel) bare hfuel
      · simp [tokens] at hfuel
      · rw [Outline.tokens, Outline.node]
        exact Reader.takes_scalar ..
  | list hne hitems ih =>
      rintro line (_ | fuel) bare hfuel
      · simp [tokens] at hfuel
      · rw [Outline.tokens] at hfuel ⊢
        rw [Outline.node]
        refine Takes.sequence line (takes_items (fun t ht => ⟨hitems t ht, ih t ht⟩) ?_)
        simp at hfuel
        omega
  | record hne hkeys hvalues ih =>
      rintro line (_ | fuel) bare hfuel
      · simp [tokens] at hfuel
      · rw [Outline.tokens] at hfuel ⊢
        rw [Outline.node]
        refine Takes.mapping line (takes_entries (fun e he => ⟨hvalues e he, ih e he⟩) ?_)
        simp at hfuel
        omega

/-- **A tidy record is read back from its document**: the tree has its parts, and no part has a
name. -/
theorem parse_render (h : (record entries).Tidy d) (hdepth : d < Scanner.maxDepth) :
    parse (record entries).render
      = some (some ⟨(record entries).node 1, #[], ((record entries).tokens 1).length + 2⟩) := by
  obtain ⟨ts, hts⟩ : ∃ ts, (record entries).tokens 1 = ⟨.mappingStart, 1⟩ :: ts := by
    rw [tokens]
    exact ⟨_, rfl⟩
  have htakes := h.yields 1 (4 * (((record entries).tokens 1).length + 2) + 4) false (by omega)
    (r := { tokens := (record entries).tokens 1 ++ [⟨.textEnd, (record entries).lines.length + 1⟩]
            handles := Reader.commonHandles }) rfl
  rw [parse, scan_render h hdepth, Document.ofTokens?]
  rw [hts] at htakes ⊢
  have hlength : (⟨.textStart, 1⟩ :: (⟨.mappingStart, 1⟩ :: ts)
      ++ [⟨.textEnd, (record entries).lines.length + 1⟩] : List Token).length
      = (⟨.mappingStart, 1⟩ :: ts : List Token).length + 2 := by
    simp
  rw [hlength]
  generalize hfuel : 4 * ((⟨.mappingStart, 1⟩ :: ts : List Token).length + 2) + 4 = fuel at htakes ⊢
  obtain ⟨fuel, rfl⟩ : ∃ f, fuel = f + 1 := ⟨fuel - 1, by omega⟩
  simp only [List.cons_append] at htakes ⊢
  simp [Reader.document, Reader.root, Reader.directives, Reader.expect, Reader.peek, Reader.skip,
    Reader.isDirective, StateT.run, bind, StateT.bind, pure, StateT.pure, modify, modifyGet,
    MonadStateOf.modifyGet, StateT.modifyGet, htakes]

end Outline

end Cellular.Yaml
