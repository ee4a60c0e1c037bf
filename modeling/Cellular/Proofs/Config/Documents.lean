import Cellular.Config.Encode
import Cellular.Config.Resolve
import Cellular.Proofs.Config.Reading

/-!
# Configurations as documents

A configuration that is written as a document is read back from it, if its names are words, its
texts can stand in the document, and its numbers mean themselves.

* `Config.Legible` says that this is so.
* `Config.Legible.tidy`: the outline of a legible configuration is tidy, and
  `Config.Legible.gives_outline`: it stands for the configuration.
* `Config.Legible.ofText_render`: its document is read as the configuration.

Writing a configuration goes through an outline, a tree of words, texts, lists and records.  So
there are two halves.  The outline is tidy, which is a condition on the texts in it, and then its
document is read as its tree; that is a theorem about documents.  The tree is read as the
configuration, part by part, where each part has a shape that says what its keys mean.  Parts that
are empty are not written, and reading starts with them empty, so they come back as they were.
-/

namespace Cellular

open Yaml (Outline Meaning IsWord PlainKey)
open Yaml.ScalarStyle (ofText)

open Decoding (Gives Means gives_pure)

/-! ## Outlines of parts

An outline has a depth, which must not be larger than what the scanner follows.
-/

/-- The keys of a configuration stand in front of their colons without quotes. -/
lemma plainKey_of_mem : ∀ key ∈ ["state", "neighbourCounts", "program", "preset",
    "name", "type", "length", "matrix", "valuefn", "overflow"], PlainKey key := by
  decide +kernel

section Parts

variable {d : Nat} {s : String}

/-- A text is tidy at any depth. -/
lemma tidy_text (h : (Outline.text s).Tidy 0) : (Outline.text s).Tidy d := by
  cases h with
  | plain hstyle hword => exact .plain hstyle hword
  | single hstyle hbreaks => exact .single hstyle hbreaks
  | block hstyle htab => exact .block hstyle htab

lemma ne_mergeKey_of_tidy (h : (Outline.text s).Tidy 0) : s ≠ Yaml.mergeKey := by
  have hplain : ofText Yaml.mergeKey = .plain := by decide +kernel
  rintro rfl
  cases h with
  | plain _ hword => exact absurd hword (by decide)
  | single hstyle => rw [hplain] at hstyle; exact nomatch hstyle
  | block hstyle => rw [hplain] at hstyle; exact nomatch hstyle

lemma tidy_record {entries : List (String × Outline)} (hne : entries ≠ [])
    (h : ∀ e ∈ entries, PlainKey e.1 ∧ e.2.Tidy d) : (Outline.record entries).Tidy (d + 1) :=
  .record hne (fun e he => (h e he).1) fun e he => (h e he).2

lemma tidy_map {α : Type} {as : List α} {outline : α → Outline} (hne : as ≠ [])
    (h : ∀ a ∈ as, (outline a).Tidy d) : (Outline.list (as.map outline)).Tidy (d + 1) :=
  .list (by simpa using hne) (List.forall_mem_map.mpr h)

/-- An entry that may be left out has a property if it has the property where it is there. -/
lemma forall_mem_unless {α : Type} {P : Prop} [Decidable P] {a : α} {Q : α → Prop} (h : ¬ P → Q a) :
    ∀ b ∈ (if P then [] else [a]), Q b := by
  split_ifs with hP
  · nofun
  · simpa using h hP

lemma tidy_textEntry {key : String} (hkey : PlainKey key)
    (h : s.isEmpty = false → (Outline.text s).Tidy 0) :
    ∀ e ∈ textEntry key s, PlainKey e.1 ∧ e.2.Tidy d :=
  forall_mem_unless fun hne => ⟨hkey, tidy_text (h (by simpa using hne))⟩

lemma textEntry_ne_nil {key : String} (h : s.isEmpty = false) : textEntry key s ≠ [] := by
  simp [textEntry, h]

/-- Outlines of the items of a list give the list if each of them gives its item. -/
lemma gives_outline_map {α : Type} {wanted : String} {item : Yaml.Node → Decoding (Option α)}
    {outline : α → Outline} {as : List α}
    (h : ∀ a ∈ as, ∀ line, Gives (item ((outline a).node line)) (some a)) (line : Nat) :
    Gives (Decoding.list wanted item ((Outline.list (as.map outline)).node line)) (some as) := by
  refine gives_outline_list ?_ line
  rw [List.forall₂_map_left_iff, List.forall₂_same]
  exact h

end Parts

/-! ## State fields

A length of zero is left out.
-/

/-- The name and the type of a field can stand in a document, and its length means itself. -/
structure StateField.Legible (f : StateField) : Prop where
  name : (Outline.text f.name).Tidy 0
  type : (Outline.text f.type).Tidy 0
  word : IsWord (toString f.length).toList
  length : Means true (toString f.length) (.int f.length)
  small : f.length < Yaml.wordEnd

namespace StateField.Legible

variable {f : StateField} (h : f.Legible)
include h

lemma tidy {d : Nat} : f.outline.Tidy (d + 1) := by
  refine tidy_record (by simp) ?_
  simp only [List.cons_append, List.nil_append, List.forall_mem_cons]
  exact ⟨⟨plainKey_of_mem _ (by simp), tidy_text h.name⟩,
    ⟨plainKey_of_mem _ (by simp), tidy_text h.type⟩,
    forall_mem_unless fun _ => ⟨plainKey_of_mem _ (by simp), .word h.word⟩⟩

/-- **A written state field is read back.** -/
lemma gives_outline (line : Nat) :
    Gives (StateField.shape.read {} (f.outline.node line)) (some f) := by
  have hint : ∀ line, Gives (Decoding.int ((intOutline f.length).node line)) (some f.length) := by
    intro line
    rw [intOutline, Outline.node]
    exact Decoding.gives_int h.length h.small
  have hlength : StateField.shape.FillsOutline ["type", "name"] { f with length := 0 }
      (intEntry "length" f.length ++ []) f :=
    .unless Shape.fillsOutline_nil rfl (by decide +kernel) (by decide) (by decide) hint rfl
      fun hzero => by rw [← hzero]
  have htype : StateField.shape.FillsOutline ["name"] { name := f.name }
      (("type", .text f.type) :: (intEntry "length" f.length ++ [])) f :=
    .cons hlength rfl (by decide +kernel) (by decide) (by decide) (gives_outline_text f.type) rfl
  have hname : StateField.shape.FillsOutline [] {}
      (("name", .text f.name) :: ("type", .text f.type) :: (intEntry "length" f.length ++ [])) f :=
    .cons htype rfl (by decide +kernel) (by decide) List.not_mem_nil
      (gives_outline_text f.name) rfl
  rw [List.append_nil] at hname
  exact hname.gives_read line

end StateField.Legible

/-! ## Kernels

Kernels are written under their names, in a record whose keys are the names.
-/

/-- The name and the texts of a kernel can stand in a document, there are numbers in each row of its
matrix, and they mean themselves. -/
structure KernelSpec.Legible (k : KernelSpec) : Prop where
  name : PlainKey k.name
  texts : ∀ s ∈ [k.valueFn, k.type, k.overflow], (Outline.text s).Tidy 0
  rows : k.matrix ≠ [] ∧ ∀ row ∈ k.matrix, row ≠ []
  words : ∀ row ∈ k.matrix, ∀ x ∈ row, IsWord (Number.Style.document.write64 x).toList
  matrix : ∀ row ∈ k.matrix, ∀ x ∈ row,
    ∃ i, Means true (Number.Style.document.write64 x) (.int i) ∧ Yaml.floatOfInt i = x

namespace KernelSpec.Legible

variable {k : KernelSpec} (h : k.Legible)
include h

lemma kernelText_eq {s : String} (hs : s ∈ [k.valueFn, k.type, k.overflow]) :
    kernelText s = .text s := if_neg (ne_mergeKey_of_tidy (h.texts s hs))

lemma tidy {d : Nat} : k.outline.Tidy (d + 3) := by
  have htexts : ∀ s ∈ [k.valueFn, k.type, k.overflow], (kernelText s).Tidy (d + 2) := by
    intro s hs
    rw [h.kernelText_eq hs]
    exact tidy_text (h.texts s hs)
  refine tidy_record (by simp) ?_
  simp only [List.forall_mem_cons] at htexts ⊢
  exact ⟨⟨plainKey_of_mem _ (by simp), tidy_map h.rows.1 fun row hrow =>
      tidy_map (h.rows.2 row hrow) fun x hx => .word (h.words row hrow x hx)⟩,
    ⟨plainKey_of_mem _ (by simp), htexts.1⟩, ⟨plainKey_of_mem _ (by simp), htexts.2.1⟩,
    ⟨plainKey_of_mem _ (by simp), htexts.2.2.1⟩, List.forall_mem_nil _⟩

lemma gives_kernelText {s : String} (hs : s ∈ [k.valueFn, k.type, k.overflow]) (line : Nat) :
    Gives (Decoding.text ((kernelText s).node line)) (some s) := by
  rw [h.kernelText_eq hs]
  exact gives_outline_text s line

/-- **A written kernel is read back.** -/
lemma gives_outline (line : Nat) :
    Gives (KernelSpec.shape.read { name := k.name } (k.outline.node line)) (some k) := by
  have hfloat : ∀ row ∈ k.matrix, ∀ x ∈ row, ∀ line, Gives (Decoding.float
      ((Outline.word (Number.Style.document.write64 x)).node line)) (some x) := by
    intro row hrow x hx line
    obtain ⟨i, hmeans, rfl⟩ := h.matrix row hrow x hx
    rw [Outline.node]
    exact Decoding.gives_float hmeans
  have hmatrix : ∀ line, Gives (readMatrix ((Outline.list (k.matrix.map fun row => .list (row.map
      fun x => .word (Number.Style.document.write64 x)))).node line)) (some k.matrix) :=
    gives_outline_map fun row hrow => gives_outline_map (hfloat row hrow)
  have hoverflow : KernelSpec.shape.FillsOutline ["type", "valuefn", "matrix"]
      { name := k.name, matrix := k.matrix, valueFn := k.valueFn, type := k.type }
      [("overflow", kernelText k.overflow)] k :=
    .cons Shape.fillsOutline_nil rfl (by decide +kernel) (by decide) (by decide)
      (h.gives_kernelText (by simp)) rfl
  have htype : KernelSpec.shape.FillsOutline ["valuefn", "matrix"]
      { name := k.name, matrix := k.matrix, valueFn := k.valueFn }
      [("type", kernelText k.type), ("overflow", kernelText k.overflow)] k :=
    .cons hoverflow rfl (by decide +kernel) (by decide) (by decide)
      (h.gives_kernelText (by simp)) rfl
  have hvalue : KernelSpec.shape.FillsOutline ["matrix"] { name := k.name, matrix := k.matrix }
      [("valuefn", kernelText k.valueFn), ("type", kernelText k.type),
        ("overflow", kernelText k.overflow)] k :=
    .cons htype rfl (by decide +kernel) (by decide) (by decide) (h.gives_kernelText (by simp)) rfl
  have hall : KernelSpec.shape.FillsOutline [] { name := k.name } _ k :=
    .cons hvalue rfl (by decide +kernel) (by decide) List.not_mem_nil hmatrix rfl
  exact hall.gives_read line

end KernelSpec.Legible

/-! ## Configurations

A configuration is not empty as a document, since its rule is given by a program or a preset.
-/

/-- All parts of a configuration can stand in a document, and its rule is given by a program or a
preset. -/
structure Config.Legible (c : Config) : Prop where
  state : ∀ f ∈ c.state, f.Legible
  kernels : ∀ k ∈ c.neighbourCounts, k.Legible
  texts : ∀ s ∈ [c.program, c.preset], s.isEmpty = false → (Outline.text s).Tidy 0
  rule : ∃ s ∈ [c.program, c.preset], s.isEmpty = false
  file : c.programFile = ""
  ruleset : c.ruleset = none

namespace Config.Legible

variable {c : Config} (h : c.Legible)
include h

/-- **The outline of a legible configuration is tidy.** -/
lemma tidy {d : Nat} : c.outline.Tidy (d + 5) := by
  have htexts := h.texts
  obtain ⟨s, hs, hrule⟩ := h.rule
  rw [outline, h.ruleset, h.file]
  refine tidy_record ?_ ?_
  · simp only [List.mem_cons, List.not_mem_nil, or_false] at hs
    rcases hs with rfl | rfl <;> simp [textEntry_ne_nil hrule]
  · simp only [List.forall_mem_cons, List.forall_mem_append, Option.toList_none,
      List.map_nil] at htexts ⊢
    refine ⟨⟨⟨⟨⟨?state, ?kernels⟩, ?program⟩, List.forall_mem_nil _⟩, List.forall_mem_nil _⟩,
      ?preset⟩
    case state =>
      refine forall_mem_unless fun hstate => ⟨plainKey_of_mem _ (by simp), ?_⟩
      exact tidy_map (by simpa using hstate) fun f hf => (h.state f hf).tidy
    case kernels =>
      refine forall_mem_unless fun hkernels => ⟨plainKey_of_mem _ (by simp), ?_⟩
      refine tidy_record (by simpa using hkernels) (List.forall_mem_map.mpr fun k hk => ?_)
      exact ⟨(h.kernels k hk).name, (h.kernels k hk).tidy⟩
    case program => exact tidy_textEntry (plainKey_of_mem _ (by simp)) htexts.1
    case preset => exact tidy_textEntry (plainKey_of_mem _ (by simp)) htexts.2.1

/-- **A written configuration stands for itself.** -/
lemma gives_outline (line : Nat) : Gives (Config.shape.read {} (c.outline.node line)) (some c) := by
  have hpreset : Config.shape.FillsOutline ["program", "neighbourCounts", "state"]
      { c with preset := "" } (textEntry "preset" c.preset ++ []) c :=
    .unless Shape.fillsOutline_nil rfl (by decide +kernel) (by decide) (by decide)
      (gives_outline_text c.preset) rfl fun hempty => by rw [← String.isEmpty_iff.mp hempty]
  have hprogram : Config.shape.FillsOutline ["neighbourCounts", "state"]
      { state := c.state, neighbourCounts := c.neighbourCounts }
      (textEntry "program" c.program ++ (textEntry "preset" c.preset ++ [])) c :=
    .unless hpreset rfl (by decide +kernel) (by decide) (by decide) (gives_outline_text c.program)
      (by simp [h.file, h.ruleset])
      fun hempty => by simp [String.isEmpty_iff.mp hempty, h.file, h.ruleset]
  have hkernels : ∀ line, Gives (readCounts ((Outline.record (c.neighbourCounts.map fun k =>
      (k.name, k.outline))).node line)) (some c.neighbourCounts) := by
    refine gives_readCounts ?_
    rw [List.forall₂_map_left_iff, List.forall₂_same]
    exact fun k hk => (h.kernels k hk).gives_outline
  have hcounts : Config.shape.FillsOutline ["state"] { state := c.state } _ c :=
    .unless (P := c.neighbourCounts.isEmpty = true) hprogram rfl (by decide +kernel) (by decide)
      (by decide) hkernels rfl fun hempty => by rw [List.isEmpty_iff.mp hempty]
  have hall : Config.shape.FillsOutline [] {} _ c :=
    .unless (P := c.state.isEmpty = true) hcounts rfl (by decide +kernel) (by decide)
      List.not_mem_nil (gives_outline_map fun f hf => (h.state f hf).gives_outline) rfl
      fun hempty => by rw [List.isEmpty_iff.mp hempty]
  have hread := hall.gives_read line
  rw [List.append_nil] at hread
  have hfile : textEntry "program_file" "" = [] := rfl
  simpa only [outline, h.ruleset, h.file, hfile, Option.toList_none, List.map_nil, List.append_nil,
    List.append_assoc] using hread

/-- **A legible configuration is read back from its document.** -/
theorem ofText_render : ofText c.outline.render = .ok c := by
  have hparse := Outline.parse_render (h.tidy (d := 0)) (by decide)
  unfold ofText
  rw [outline, hparse]
  exact decodeConfig_of_gives (h.gives_outline 1)

end Config.Legible

end Cellular
