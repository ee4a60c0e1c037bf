import Cellular.Proofs.Config.Documents
import Cellular.Proofs.Ruleset.Reading

/-!
# Rulesets as documents

A ruleset that is written as a configuration is read back from the document of this configuration.
The program is the part of it that depends on the ruleset: it is written as a block of lines,
whatever the totals and ages are.

* `ofText_lines` says which texts are written as blocks of lines, and `Ruleset.ofText_program` that
  the program is one.
* `Ruleset.tidy_entries`: the outline of the configuration is tidy.
* `Ruleset.parse_document`: the document is read as the configuration.

The document is written by a printer that knows outlines and read by a reader that knows any
document of the format.  What is special about a ruleset is the form of its texts: names are words,
numbers of the matrix are zeros and ones, and the program has many lines.  Which style a text is
written in depends on all of its characters, so for the program an induction over the lists of
totals has to show that none of them spoils the style.
-/

namespace Cellular

open Yaml (Outline ScalarStyle IsWord isSpace isBreak)

/-! ## Blocks of lines

A text is written as a block if its lines can be read back from one.  Neat lines can: they have no
tabs, and no blanks before their ends.
-/

/-- A text of printable characters. -/
def Printable (cs : List Char) : Prop := ∀ c ∈ cs, ' ' ≤ c ∧ c ≤ '~'

instance (cs : List Char) : Decidable (Printable cs) := inferInstanceAs (Decidable (∀ c ∈ cs, _))

/-- A line of printable characters with no blank at its end. -/
structure NeatLine (s : String) : Prop where
  printable : Printable s.toList
  last : s.toList.getLast? ≠ some ' '

section Lines

variable {cs : List Char} {c : Char} {rest : List Char} {ls : List String}

lemma Printable.append {cs' : List Char} (h : Printable cs) (h' : Printable cs') :
    Printable (cs ++ cs') := List.forall_mem_append.mpr ⟨h, h'⟩

lemma isShown_of_printable (h : ' ' ≤ c ∧ c ≤ '~') : Yaml.isShown c = true := by
  have hn : 0x20 ≤ c.toNat ∧ c.toNat ≤ 0x7e := h
  simp only [Yaml.isShown, Bool.or_eq_true, Bool.and_eq_true, decide_eq_true_eq]
  omega

lemma isBreak_of_printable (h : ' ' ≤ c ∧ c ≤ '~') : isBreak c = false := by
  have hn : 0x20 ≤ c.toNat ∧ c.toNat ≤ 0x7e := h
  have hne : ∀ d : Char, d.toNat < 0x20 ∨ 0x7e < d.toNat → c ≠ d := by
    rintro d hd rfl
    omega
  simp [isBreak, hne]

/-- The text of some lines. -/
def textOf (ls : List String) : List Char := ls.flatMap fun l => l.toList ++ ['\n']

lemma hasPair_line (hprintable : Printable cs) (hlast : cs.getLast? ≠ some ' ') :
    Yaml.hasPair isSpace isBreak (cs ++ '\n' :: rest) = Yaml.hasPair isSpace isBreak rest := by
  induction cs with
  | nil => cases rest <;> simp [Yaml.hasPair, isSpace]
  | cons c cs ih =>
      have hmore : Printable cs := fun e he => hprintable e (List.mem_cons_of_mem _ he)
      cases cs with
      | nil =>
          have hc : isSpace c = false := by simpa [isSpace] using hlast
          have hrest := ih hmore (by simp)
          simp only [List.nil_append, List.cons_append] at hrest ⊢
          rw [Yaml.hasPair, hc, Bool.false_and, Bool.false_or, hrest]
      | cons d cs =>
          have hd : isBreak d = false := isBreak_of_printable (hprintable d (by simp))
          have hrest := ih hmore (by simpa using hlast)
          simp only [List.cons_append] at hrest ⊢
          rw [Yaml.hasPair, hd, Bool.and_false, Bool.false_or, hrest]

/-- **Neat lines are written as a block of lines.** -/
theorem ofText_lines {s : String} (hs : s.toList = textOf ls) (hne : ls ≠ [])
    (hls : ∀ l ∈ ls, NeatLine l) : ScalarStyle.ofText s = .lines := by
  have hpair : Yaml.hasPair isSpace isBreak (textOf ls) = false := by
    clear hs hne
    induction ls with
    | nil => rfl
    | cons l ls ih =>
        rw [List.forall_mem_cons] at hls
        rw [textOf, List.flatMap_cons, List.append_assoc, List.singleton_append,
          hasPair_line hls.1.printable hls.1.last]
        exact ih hls.2
  have hescape : Yaml.needsEscape (textOf ls) = false := by
    rw [Yaml.needsEscape, List.any_eq_false]
    intro c hc
    obtain ⟨l, hl, hc⟩ := List.mem_flatMap.mp hc
    rcases List.mem_append.mp hc with hc | hc
    · simp [isShown_of_printable ((hls l hl).printable c hc)]
    · rw [List.mem_singleton.mp hc]
      decide
  obtain ⟨ls, l, rfl⟩ := (List.eq_nil_or_concat' ls).resolve_left hne
  have hlast : (textOf (ls ++ [l])).getLast? = some '\n' := by
    simp [textOf]
  have hbreak : (textOf (ls ++ [l])).contains '\n' = true := by
    simp [textOf]
  rw [ScalarStyle.ofText, hs, if_pos hbreak, ScalarStyle.ofLines, Yaml.fitsLines, hlast, hpair,
    hescape]
  rfl

end Lines

namespace Ruleset

/-! ## The program

Each line of the program has fixed text with a condition in it.
-/

lemma printable_repr {n : Int} (h : 0 ≤ n) : Printable n.repr.toList := by
  intro c hc
  rw [toList_repr h] at hc
  have hdigit := Nat.isDigit_of_mem_toDigits (by decide) (by decide) hc
  rw [Char.isDigit, Bool.and_eq_true, decide_eq_true_eq, decide_eq_true_eq] at hdigit
  have hn : 0x30 ≤ c.toNat ∧ c.toNat ≤ 0x39 := hdigit
  change 0x20 ≤ c.toNat ∧ c.toNat ≤ 0x7e
  omega

lemma printable_anyOf {totals : List Int} (h : ∀ n ∈ totals, 0 ≤ n ∧ n ≤ 8) :
    Printable (anyOf totals).toList := by
  have htotal : ∀ n ∈ totals, Printable (s!"neighbours == {n}").toList := by
    intro n hn
    have hname : Printable "neighbours == ".toList := by decide
    simpa [toString_text] using hname.append (printable_repr (h n hn).1)
  cases totals with
  | nil => decide
  | cons n more =>
      rw [List.forall_mem_cons] at htotal
      rw [toList_anyOf_cons]
      refine htotal.1.append fun c hc => ?_
      obtain ⟨k, hk, hc⟩ := List.mem_flatMap.mp hc
      rcases List.mem_append.mp hc with hc | hc
      · exact (by decide : Printable " || ".toList) c hc
      · exact htotal.2 k hk c hc

lemma printable_survival {r : Ruleset} (h : r.InRange) : Printable r.survival.toList := by
  have htotals := printable_anyOf h.survive
  rw [survival]
  split_ifs
  · have hlimit := printable_repr h.naturalDeath.1
    have hopen : Printable "(".toList := by decide
    have hclose : Printable ") && cell.age < ".toList := by decide
    simpa [toString_text] using hopen.append (htotals.append (hclose.append hlimit))
  · exact htotals

/-- A line with a text inside is neat if the text is printable. -/
lemma neatLine_around (before after : String) {text : String} (htext : Printable text.toList)
    (hbefore : Printable before.toList) (hafter : NeatLine after) (hne : after.toList ≠ []) :
    NeatLine (before ++ text ++ after) where
  printable := by
    rw [String.toList_append, String.toList_append]
    exact (hbefore.append htext).append hafter.printable
  last := by
    rw [String.toList_append, List.getLast?_append_of_ne_nil _ hne]
    exact hafter.last

instance (s : String) : Decidable (NeatLine s) :=
  decidable_of_iff (Printable s.toList ∧ s.toList.getLast? ≠ some ' ')
    ⟨fun h => ⟨h.1, h.2⟩, fun h => ⟨h.printable, h.last⟩⟩

lemma neat_deathLines {r : Ruleset} (h : r.InRange) : ∀ l ∈ r.deathLines, NeatLine l := by
  rw [deathLines]
  split_ifs
  · rw [List.forall_mem_cons]
    refine ⟨?_, by decide⟩
    simpa [toString_text] using neatLine_around "        if (cell.age < " ") \x7b"
      (printable_repr h.starve.1) (by decide) (by decide) (by decide)
  · decide

lemma exists_lines {r : Ruleset} (h : r.InRange) :
    ∃ l ls, r.program.toList = textOf (l :: ls) ∧ l.toList.head? = some 'i' ∧
      ∀ k ∈ l :: ls, NeatLine k := by
  have hjoin : ∀ ls : List String, (String.join (ls.map (· ++ "\n"))).toList = textOf ls := by
    intro ls
    induction ls with
    | nil => rfl
    | cons l ls ih => simpa [textOf] using ih
  have hsurvival := neatLine_around "    if (!(" ")) \x7b" (printable_survival h) (by decide)
    (by decide) (by decide)
  have hbirth := neatLine_around "    if (" ") \x7b" (printable_anyOf h.birth) (by decide)
    (by decide) (by decide)
  refine ⟨_, _, hjoin _, rfl, ?_⟩
  simp only [List.append_eq, List.forall_mem_cons, List.forall_mem_append]
  exact ⟨by decide, ⟨⟨hsurvival, List.forall_mem_nil _⟩, neat_deathLines h⟩, by decide, by decide, by decide,
    by decide, by decide, hbirth, by decide⟩

/-- **The program of a ruleset is written as a block of lines**, whatever the totals and ages
are. -/
theorem ofText_program {r : Ruleset} (h : r.InRange) : ScalarStyle.ofText r.program = .lines := by
  obtain ⟨l, ls, htext, -, hneat⟩ := exists_lines h
  exact ofText_lines htext (List.cons_ne_nil l ls) hneat

lemma head?_program {r : Ruleset} (h : r.InRange) : r.program.toList.head? = some 'i' := by
  obtain ⟨l, ls, htext, hhead, -⟩ := exists_lines h
  rw [htext, textOf, List.flatMap_cons, List.append_assoc, List.head?_append, hhead]
  rfl

lemma isEmpty_program {r : Ruleset} (h : r.InRange) : r.program.isEmpty = false := by
  have hhead := head?_program h
  rw [Bool.eq_false_iff, ne_eq, String.isEmpty_iff]
  rintro hempty
  rw [hempty] at hhead
  exact nomatch hhead

/-! ## The configuration

The configuration of a ruleset is complete, so nothing has to be filled in when it is read.
-/

/-- The configuration that a ruleset is written as. -/
def config (r : Ruleset) : Config where
  state := [{ name := "alive", type := "flag" }, { name := "age", type := "number", length := 8 }]
  neighbourCounts := [neighbours]
  program := r.program

lemma expand_eq_ok {r : Ruleset} {c : Config} : r.expand = .ok c ↔ r.InRange ∧ c = r.config := by
  simp only [expand, bind_eq_ok, pure_eq_ok, ← validate_eq_ok, config]
  constructor
  · rintro ⟨⟨⟩, hvalid, rfl⟩
    exact ⟨hvalid, rfl⟩
  · rintro ⟨hvalid, rfl⟩
    exact ⟨(), hvalid, rfl⟩

lemma tidy_words : ∀ s ∈ ["alive", "flag", "age", "number", "int", "wrap"],
    (Outline.text s).Tidy 0 := by
  have hplain : ∀ s ∈ ["alive", "flag", "age", "number", "int", "wrap"],
      ScalarStyle.ofText s = .plain ∧ IsWord s.toList := by decide +kernel
  exact fun s hs => .plain (hplain s hs).1 (hplain s hs).2

lemma legible_state (r : Ruleset) : ∀ f ∈ r.config.state, f.Legible := by
  simp only [config, List.forall_mem_cons]
  exact ⟨{
    name := tidy_words _ (by simp)
    type := tidy_words _ (by simp)
    word := by decide +kernel
    length := by with_unfolding_all rfl
    small := by decide }, {
    name := tidy_words _ (by simp)
    type := tidy_words _ (by simp)
    word := by decide +kernel
    length := by with_unfolding_all rfl
    small := by decide }, List.forall_mem_nil _⟩

/-- The numbers of the kernel are read back. -/
lemma means_write64 : ∀ x ∈ [(1 : Float), 0], IsWord (Number.Style.document.write64 x).toList ∧
    ∃ i, Decoding.Means true (Number.Style.document.write64 x) (.int i) ∧
      Yaml.floatOfInt i = x := by
  have hone : Number.Style.document.write64 1 = "1" := by decide +kernel
  have hzero : Number.Style.document.write64 0 = "0" := by decide +kernel
  simp only [List.forall_mem_cons, hone, hzero]
  exact ⟨⟨by decide, 1, by with_unfolding_all rfl, by decide +kernel⟩,
    ⟨by decide, 0, by with_unfolding_all rfl, by decide +kernel⟩, List.forall_mem_nil _⟩

lemma legible_neighbours : neighbours.Legible := by
  have hcells : ∀ row ∈ neighbours.matrix, ∀ x ∈ row, x ∈ [(1 : Float), 0] := by
    simp [neighbours]
  exact {
    name := by decide +kernel
    texts := by
      simp only [List.forall_mem_cons]
      exact ⟨.single (by decide +kernel) (by decide), tidy_words _ (by simp [neighbours]),
        tidy_words _ (by simp [neighbours]), List.forall_mem_nil _⟩
    rows := by decide +kernel
    words := fun row hrow x hx => (means_write64 x (hcells row hrow x hx)).1
    matrix := fun row hrow x hx => (means_write64 x (hcells row hrow x hx)).2 }

/-- **The configuration of a ruleset can stand in a document.** -/
lemma InRange.legible {r : Ruleset} (h : r.InRange) : r.config.Legible where
  state := legible_state r
  kernels := by
    rw [config, List.forall_mem_singleton]
    exact legible_neighbours
  texts := by
    simp only [config, List.forall_mem_cons]
    exact ⟨fun _ => .block (ofText_program h) (by rw [head?_program h]; decide),
      fun hempty => absurd hempty (by decide), List.forall_mem_nil _⟩
  rule := ⟨r.program, List.mem_cons_self, isEmpty_program h⟩
  file := rfl
  ruleset := rfl

/-- A configuration that is complete stays as it is. -/
lemma resolve_config {r : Ruleset} (h : r.InRange) (files : FileTexts) (base : String) :
    r.config.resolve files base = .ok r.config := by
  have hcount : r.config.sourceCount = 1 := by
    simp [Config.sourceCount, config, isEmpty_program h]
  rw [Config.resolve, hcount, if_neg (by decide)]
  rfl

/-- **A ruleset that is written as a document is read back as its configuration**, wherever the
document stands: none of its parts is left to a file, a ruleset or a preset. -/
theorem parse_document {r : Ruleset} {c : Config} (h : r.expand = .ok c) :
    c.programFile = "" ∧ c.ruleset = none ∧ c.preset = "" ∧
      ∃ text, c.document = .ok text ∧ ∀ files base, Config.parse files base text = .ok c := by
  obtain ⟨hrange, rfl⟩ := expand_eq_ok.mp h
  have hdocument : r.config.document = .ok r.config.outline.render :=
    if_pos (by decide +kernel : [neighbours].all KernelSpec.readsBack = true)
  refine ⟨rfl, rfl, rfl, _, hdocument, fun files base => ?_⟩
  rw [Config.parse, hrange.legible.ofText_render, ok_bind, resolve_config hrange]
  rfl

/-- A ruleset that uses all of its parts. -/
def brief : Ruleset := { survive := [2, 3], birth := [3, 6], naturalDeath := 30, starve := 2 }

/-- The document of a ruleset with an age to die at and an age to starve at is read back. -/
theorem parse_document_brief : brief.expand = .ok brief.config ∧
    brief.config.programFile = "" ∧ brief.config.ruleset = none ∧ brief.config.preset = "" ∧
      ∃ text, brief.config.document = .ok text ∧
        ∀ files base, Config.parse files base text = .ok brief.config := by
  have h : brief.expand = .ok brief.config := rfl
  exact ⟨h, parse_document h⟩

end Ruleset

end Cellular
