import Cellular.Proofs.Shader.Vocabulary

/-!
# The text of a compiled shader

A shader that passes the check is made of its own words, of marks, and of the names of its rule behind
the stems that it puts in front of them.  Braces occur in none of these, and two underscores in a row
only where a name that starts with an underscore stands behind a stem.

* `ownWords` are the words that all shaders share; `Shader.introduced_generate` and
  `Compiled.mem_words` are the words of a generated shader and of the shader of a compiled rule.
* `Compiled.names` are the names that the writer of a rule chose.
* `Compiled.reserved_identifier_iff`: an identifier of the text has two underscores in a row just when
  one of these names starts with an underscore.
* `Compiled.shader_wellFormed`: the shader of a compiled rule keeps the static rules, and the braces
  of its text balance.

Which names a shader may use is decided by three questions about its words: whether they are
declared, whether they have braces, and whether they have two underscores in a row.  The check
answers the first one, and with it reduces the other two to the declared names.  These are made from
stems that are known and from names that have passed the test for identifiers of the rule language.
A name with two underscores in a row does not pass that test, but a name that starts with one does,
and stems end in one.
-/

namespace Cellular

open Shader

/-! ## Variables of a rule

Each declaration of the rule is one of the shader.  Blocks and branches keep their variables, which
is why they are collected by recursion rather than read off the scope.
-/

mutual

/-- The variables that a statement declares, those of its inner blocks among them. -/
def Stmt.vars {α : Type} : Stmt α → List String
  | .block _ body => Stmt.varsAll body
  | .declare _ _ name _ => [name]
  | .assign .. => []
  | .when _ _ body => Stmt.vars body
  | .branch _ _ yes no => Stmt.vars yes ++ Stmt.vars no

/-- The variables that statements declare. -/
def Stmt.varsAll {α : Type} : List (Stmt α) → List String
  | [] => []
  | s :: ss => Stmt.vars s ++ Stmt.varsAll ss

end

namespace Shader

lemma Code.introducedAll_eq (cs : List Code) :
    Code.introducedAll cs = cs.flatMap Code.introduced := by
  induction cs with
  | nil => rfl
  | cons c cs ih => rw [Code.introducedAll, ih, List.flatMap_cons]

lemma Code.introducedAll_branchBody (c : Code) :
    Code.introducedAll c.branchBody = c.introduced := by
  cases c <;> simp [Code.branchBody, Code.introducedAll, Code.introduced]

end Shader

mutual

/-- The code of a statement declares its variables. -/
theorem Stmt.introduced_toCode {ks : KernelSet} :
    ∀ {stmt : Stmt Note} {c : Code}, stmt.toCode ks = .ok c →
      c.introduced = stmt.vars.map userVar
  | .block n body, c, h => by
      simp only [Stmt.toCode, bind_eq_ok, pure_eq_ok] at h
      obtain ⟨codes, hcodes, rfl⟩ := h
      exact Stmt.introduced_toCodes hcodes
  | .declare n type name init, c, h => by
      simp only [Stmt.toCode, bind_eq_ok, pure_eq_ok] at h
      obtain ⟨_, -, rfl⟩ := h
      rfl
  | .assign n m target op value, c, h => by
      simp only [Stmt.toCode, bind_eq_ok, assignCode] at h
      obtain ⟨_, -, h⟩ := h
      split at h
      · cases h
        rfl
      · split_ifs at h
        cases h
        rfl
      · cases h
  | .when n test body, c, h => by
      simp only [Stmt.toCode, bind_eq_ok, pure_eq_ok] at h
      obtain ⟨_, -, body', hbody, rfl⟩ := h
      rw [Code.introduced, Code.introducedAll_branchBody, Stmt.introduced_toCode hbody]
      rfl
  | .branch n test yes no, c, h => by
      simp only [Stmt.toCode, bind_eq_ok, pure_eq_ok] at h
      obtain ⟨_, -, yes', hyes, no', hno, rfl⟩ := h
      rw [Code.introduced, Code.introducedAll_branchBody, Code.introducedAll_branchBody,
        Stmt.introduced_toCode hyes, Stmt.introduced_toCode hno, Stmt.vars, List.map_append]

/-- The same for statements in turn. -/
theorem Stmt.introduced_toCodes {ks : KernelSet} :
    ∀ {stmts : List (Stmt Note)} {cs : List Code}, Stmt.toCodes ks stmts = .ok cs →
      Code.introducedAll cs = (Stmt.varsAll stmts).map userVar
  | [], cs, h => by
      cases h
      rfl
  | stmt :: stmts, cs, h => by
      simp only [Stmt.toCodes, bind_eq_ok, pure_eq_ok] at h
      obtain ⟨c, hc, cs', hcs, rfl⟩ := h
      rw [Code.introducedAll, Stmt.introduced_toCode hc, Stmt.introduced_toCodes hcs, Stmt.varsAll,
        List.map_append]

end

namespace Shader

/-- The words that a shader brings in for itself. -/
def ownWords : List String :=
  ["gl_FragCoord", boardName, weightsName, boardSizeName, outputName, coordName, cellAtName, wrapName,
    "main", "x", "y", "i", "size", cellName, "val", "count", "ix", "iy", "cx", "cy", "mult", "value",
    "rule program", "next"]

lemma introduced_getter (d : Field) : (getter d).introduced ⊆ getterName d.name :: ownWords := by
  have hbody : Code.introducedAll (getter d).body ⊆ ["val"] := by
    rw [getter]
    split_ifs
    · simp [flagGetter, Code.introducedAll, Code.introduced]
    · rw [numberGetter.eq_def]
      split <;> simp [Code.introducedAll_eq, Code.introduced, Code.set, List.flatMap_map]
  refine List.append_subset.mpr ⟨?_, fun w hw => ?_⟩
  · exact List.cons_subset_cons _ (show [cellName] ⊆ ownWords by decide)
  · exact List.mem_cons_of_mem _ ((show ["val"] ⊆ ownWords by decide) (hbody hw))

lemma introducedAll_numberSetter (spans : List Span) :
    Code.introducedAll (numberSetter spans) = [] := by
  induction spans with
  | nil => rfl
  | cons s more ih =>
      rw [Code.introducedAll_eq] at ih ⊢
      rw [numberSetter]
      split_ifs <;> simp [spanUpdate, Code.introduced, Code.set, ih]

lemma introduced_setter (d : Field) :
    (setter d).introduced = [setterName d.name, cellName, "val"] := by
  have hbody : Code.introducedAll (setter d).body = [] := by
    rw [setter]
    split_ifs
    · rfl
    · exact introducedAll_numberSetter _
  rw [Function.introduced, hbody]
  rfl

lemma introduced_countFunction (k : Kernel) (value : Term) :
    (countFunction k value).introduced
      = [countName k.name, "count", "ix", "iy", "cx", "cy", "mult", cellName, "value"] := by
  have hoverflow : (overflowCode k.overflow).flatMap Code.introduced = [] := by
    cases k.overflow <;> rfl
  rw [Function.introduced, body_countFunction]
  simp [Code.introducedAll_eq, Code.introduced, visitCode, hoverflow, countFunction]

lemma introduced_mainFunction (l : Layout) (ks : KernelSet) (rule : List Code) :
    (mainFunction l ks rule).introduced
      = ["main"] ++ (ks.kernels.map Kernel.name).map countLocal ++ [cellName]
        ++ (l.fields.map Field.name).map prevLocal ++ ["rule program"] ++ Code.introducedAll rule
        ++ ["next"] := by
  have hcalls : l.fields.flatMap (fun _ => ([] : List String)) = [] :=
    List.flatMap_eq_nil_iff.mpr fun _ _ => rfl
  rw [Function.introduced, body_mainFunction]
  simp [Code.introducedAll_eq, Code.introduced, openingCode, closingCode, Code.set, mainFunction,
    List.flatMap_map, ← List.map_eq_flatMap, hcalls, Function.comp_def]

/-- The words that a shader makes from the names of its rule. -/
def ruleWords (l : Layout) (ks : KernelSet) (vars : List String) : List String :=
  (families l ks vars).flatMap Family.names

section

variable {l : Layout} {ks : KernelSet} {p : Program Note} {s : Shader} {vars : List String}

lemma names_subset_ruleWords {f : Family} (hf : f ∈ families l ks vars) :
    f.names ⊆ ruleWords l ks vars :=
  fun _ hw => List.mem_flatMap.mpr ⟨f, hf, hw⟩

lemma mem_ruleWords {f : Family} (hf : f ∈ families l ks vars) {a : String} (ha : a ∈ f.members) :
    f.stem ++ a ∈ ruleWords l ks vars :=
  names_subset_ruleWords hf (List.mem_map_of_mem ha)

lemma introduced_helpers {f : Function} (hf : f ∈ helpers l ks) :
    f.introduced ⊆ ownWords ++ ruleWords l ks vars := by
  simp only [helpers, List.mem_append, List.mem_cons, List.mem_flatMap, List.not_mem_nil,
    or_false] at hf
  rcases hf with (rfl | hf) | ⟨d, hd, rfl | rfl⟩
  · exact List.subset_append_of_subset_left _ (by decide)
  · split_ifs at hf
    · rw [List.mem_singleton.mp hf]
      exact List.subset_append_of_subset_left _ (by decide)
    · cases hf
  · have hword : getterName d.name ∈ ruleWords l ks vars :=
      mem_ruleWords (f := ⟨"get_cell_state_", _⟩) (by simp [families]) (List.mem_map_of_mem hd)
    refine List.Subset.trans (introduced_getter d) (List.cons_subset.mpr ⟨?_, ?_⟩)
    · exact List.mem_append_right _ hword
    · exact List.subset_append_left _ _
  · have hword : setterName d.name ∈ ruleWords l ks vars :=
      mem_ruleWords (f := ⟨"set_cell_state_", _⟩) (by simp [families]) (List.mem_map_of_mem hd)
    rw [introduced_setter]
    refine List.cons_subset.mpr ⟨List.mem_append_right _ hword, ?_⟩
    exact List.subset_append_of_subset_left _ (by decide)

lemma introduced_counts {k : Kernel} (hk : k ∈ ks.kernels) (value : Term) :
    (countFunction k value).introduced ⊆ ownWords ++ ruleWords l ks vars := by
  have hword : countName k.name ∈ ruleWords l ks vars :=
    mem_ruleWords (f := ⟨"count_neighbours_", _⟩) (by simp [families]) (List.mem_map_of_mem hk)
  rw [introduced_countFunction]
  refine List.cons_subset.mpr ⟨List.mem_append_right _ hword, ?_⟩
  exact List.subset_append_of_subset_left _ (by decide)

/-- **The words that a generated shader brings in** are its own, or made from names of the rule. -/
lemma introduced_generate (h : Shader.generate l ks p = .ok s) :
    s.introduced ⊆ ownWords ++ ruleWords l ks (Stmt.varsAll p.body) := by
  obtain ⟨counts, rule, hcounts, hrule, huniforms, houtputs, hglobals, hfunctions⟩ :=
    generate_parts h
  have hmain : (mainFunction l ks rule).introduced
      ⊆ ownWords ++ ruleWords l ks (Stmt.varsAll p.body) := by
    have hfixed : ["main", cellName, "rule program", "next"] ⊆ ownWords := by decide
    rw [introduced_mainFunction, Stmt.introduced_toCodes hrule]
    intro w hw
    simp only [List.mem_append] at hw ⊢
    rcases hw with (((((hw | hw) | hw) | hw) | hw) | hw) | hw
    · exact .inl (hfixed (by simp_all))
    · exact .inr (names_subset_ruleWords (f := ⟨"neighbour_count_", _⟩) (by simp [families]) hw)
    · exact .inl (hfixed (by simp_all))
    · exact .inr (names_subset_ruleWords (f := ⟨"cell_state_", _⟩) (by simp [families]) hw)
    · exact .inl (hfixed (by simp_all))
    · exact .inr (names_subset_ruleWords (f := ⟨"user_var_", _⟩) (by simp [families]) hw)
    · exact .inl (hfixed (by simp_all))
  rw [Shader.introduced, huniforms, houtputs, hglobals, hfunctions]
  refine List.append_subset.mpr ⟨List.subset_append_of_subset_left _ (by decide), ?_⟩
  intro w hw
  obtain ⟨f, hf, hw⟩ := List.mem_flatMap.mp hw
  rcases List.mem_append.mp hf with hf | hf
  · rcases List.mem_append.mp hf with hf | hf
    · exact introduced_helpers hf hw
    · obtain ⟨k, hk, value, -, rfl⟩ := exists_kernel_of_mem hcounts hf
      exact introduced_counts hk value hw
  · rw [List.mem_singleton.mp hf] at hw
    exact hmain hw

/-- Every name of the rule is behind a stem in a word of the shader. -/
lemma exists_stem_of_generate (h : Shader.generate l ks p = .ok s) {a : String}
    (ha : a ∈ l.fields.map Field.name ++ ks.kernels.map Kernel.name ++ Stmt.varsAll p.body) :
    ∃ stem ∈ stems, stem ++ a ∈ s.words := by
  obtain ⟨counts, rule, hcounts, hrule, -, -, -, hfunctions⟩ := generate_parts h
  rcases List.mem_append.mp ha with ha | ha
  · rcases List.mem_append.mp ha with ha | ha
    · obtain ⟨d, hd, rfl⟩ := List.mem_map.mp ha
      have hgetter : getter d ∈ helpers l ks :=
        List.mem_append_right _ (List.mem_flatMap.mpr ⟨d, hd, List.mem_cons_self⟩)
      refine ⟨"get_cell_state_", by decide, introduced_subset_words (f := getter d) ?_ ?_⟩
      · rw [hfunctions]
        exact List.mem_append_left _ (List.mem_append_left _ hgetter)
      · exact List.mem_cons_self
    · obtain ⟨k, hk, rfl⟩ := List.mem_map.mp ha
      obtain ⟨value, -, hcount⟩ := exists_countFunction hcounts hk
      refine ⟨"count_neighbours_", by decide,
        introduced_subset_words (f := countFunction k value) ?_ ?_⟩
      · rw [hfunctions]
        exact List.mem_append_left _ (List.mem_append_right _ hcount)
      · exact List.mem_cons_self
  · refine ⟨"user_var_", by decide, introduced_subset_words (f := mainFunction l ks rule) ?_ ?_⟩
    · rw [hfunctions]
      exact List.mem_append_right _ (List.mem_singleton.mpr rfl)
    · rw [introduced_mainFunction, Stmt.introduced_toCodes hrule]
      exact List.mem_append_left _ (List.mem_append_right _ (List.mem_map_of_mem ha))

end

end Shader

/-! ## Names of a rule

The names of fields, kernels and variables are tested in different places.  What all of them have in
the end is `Nameable`.
-/

/-- A name of name characters without two underscores in a row. -/
structure Nameable (name : String) : Prop where
  parts : ∀ c ∈ name.toList, isNamePart c = true
  double : hasDoubleUnderscore name.toList = false

lemma nameable_of_isIdentifier {name : String} (h : isIdentifier name = true) : Nameable name := by
  rw [isIdentifier] at h
  split at h
  · next c cs hname =>
      simp only [Bool.and_eq_true, Bool.not_eq_true', List.all_eq_true] at h
      constructor
      · rw [hname]
        exact List.forall_mem_cons.mpr ⟨isNamePart_of_isNameStart h.1.1.1, h.1.1.2⟩
      · rw [hname]
        exact h.1.2
  · cases h

mutual

/-- The variables of a checked statement have names. -/
theorem Stmt.nameable_vars : ∀ {scope : Scope} {start : Nat} {stmt : Stmt Note},
    stmt.WellTyped scope start → stmt.Worded → ∀ a ∈ stmt.vars, Nameable a
  | scope, start, .block n body, ⟨_, hbody⟩, qbody, a, ha =>
      Stmt.nameable_varsAll hbody qbody a ha
  | scope, start, .declare n type name init, ⟨_, _, hdouble, _⟩, ⟨hword, _⟩, a, ha => by
      rw [List.mem_singleton.mp ha]
      refine ⟨?_, hdouble⟩
      generalize name.toList = w at hword
      cases hword with
      | ident hc hcs => exact List.forall_mem_cons.mpr ⟨isNamePart_of_isNameStart hc, hcs⟩
  | scope, start, .assign n m target op value, _, _, a, ha => by simp [Stmt.vars] at ha
  | scope, start, .when n test body, ⟨_, _, _, hbody⟩, ⟨_, qbody⟩, a, ha =>
      Stmt.nameable_vars hbody qbody a ha
  | scope, start, .branch n test yes no, ⟨_, _, _, hyes, hno⟩, ⟨_, qyes, qno⟩, a, ha => by
      rcases List.mem_append.mp ha with ha | ha
      · exact Stmt.nameable_vars hyes qyes a ha
      · exact Stmt.nameable_vars hno qno a ha

/-- The same for statements in turn. -/
theorem Stmt.nameable_varsAll : ∀ {scope : Scope} {start : Nat} {stmts : List (Stmt Note)},
    Stmt.AllWellTyped scope start stmts → Stmt.AllWorded stmts →
      ∀ a ∈ Stmt.varsAll stmts, Nameable a
  | scope, start, [], _, _, a, ha => by simp [Stmt.varsAll] at ha
  | scope, start, stmt :: stmts, ⟨hstmt, hstmts⟩, ⟨qstmt, qstmts⟩, a, ha => by
      rcases List.mem_append.mp ha with ha | ha
      · exact Stmt.nameable_vars hstmt qstmt a ha
      · exact Stmt.nameable_varsAll hstmts qstmts a ha

end

/-- The names that the writer of a rule chose: those of its fields, kernels and variables. -/
def Compiled.names (c : Compiled) : List String :=
  c.layout.fields.map Field.name ++ c.kernels.kernels.map Kernel.name ++ Stmt.varsAll c.program.body

lemma Compiled.WellFormed.nameable {c : Compiled} (h : c.WellFormed) :
    ∀ a ∈ c.names, Nameable a := by
  intro a ha
  rcases List.mem_append.mp ha with ha | ha
  · rcases List.mem_append.mp ha with ha | ha
    · obtain ⟨specs, hpack⟩ := h.packed
      obtain ⟨hdeclarable, -, -, hlayout⟩ := (Layout.pack_ok_iff _ _).mp hpack
      rw [hlayout, FieldSpec.map_name_fieldsFrom] at ha
      obtain ⟨spec, hspec, rfl⟩ := List.mem_map.mp ha
      exact nameable_of_isIdentifier (hdeclarable spec hspec).identifier
    · obtain ⟨k, hk, rfl⟩ := List.mem_map.mp ha
      exact nameable_of_isIdentifier (h.kernels.checked k hk).named
  · exact Stmt.nameable_varsAll h.typed h.worded a ha

/-! ## Words of the text

A word with a stem is taken apart at the end of the stem, which is an underscore in all cases.
-/

/-- A word of the shader of a compiled rule is a mark, one of its own words, or a name of the rule
behind a stem. -/
lemma Compiled.mem_words {config : Config} {c : Compiled} (h : config.compile = .ok c) {w : String}
    (hw : w ∈ c.shader.words) :
    isMark w = true ∨ w ∈ ownWords ∨ ∃ stem ∈ stems, ∃ a ∈ c.names, w = stem ++ a := by
  obtain ⟨globals, hcheck⟩ := Compiled.check_shader h
  rcases known_of_check hcheck w hw with hw | hw
  · rcases List.mem_append.mp (introduced_generate (Config.generated_of_compile h) hw) with hw | hw
    · exact .inr (.inl hw)
    · refine .inr (.inr ?_)
      obtain ⟨f, hf, hmem⟩ := List.mem_flatMap.mp hw
      obtain ⟨a, ha, rfl⟩ := List.mem_map.mp hmem
      refine ⟨f.stem, ?_, a, ?_, rfl⟩
      · exact List.mem_map_of_mem (f := Family.stem) hf
      · simp only [families, List.mem_cons, List.not_mem_nil, or_false] at hf
        simp only [Compiled.names, List.mem_append]
        rcases hf with rfl | rfl | rfl | rfl | rfl | rfl
        · exact .inl (.inl ha)
        · exact .inl (.inl ha)
        · exact .inl (.inl ha)
        · exact .inl (.inr ha)
        · exact .inl (.inr ha)
        · exact .inr ha
  · exact .inl hw

lemma ne_brace_of_isNamePart {ch : Char} (h : isNamePart ch = true) :
    ch ≠ '\x7b' ∧ ch ≠ '\x7d' :=
  ⟨ne_of_isNamePart h (by decide), ne_of_isNamePart h (by decide)⟩

/-- No word of the shader has a brace, and none starts with an underscore. -/
lemma Compiled.plain_words {config : Config} {c : Compiled} (h : config.compile = .ok c) :
    ∀ w ∈ c.shader.words,
      (∀ ch ∈ w.toList, ch ≠ '\x7b' ∧ ch ≠ '\x7d') ∧ w.toList.head? ≠ some '_' := by
  have hnames := (Config.wellFormed_of_compile h).nameable
  have hown : ∀ w ∈ ownWords, w.toList.all (fun ch => ch != '\x7b' && ch != '\x7d') = true ∧
      w.toList.head? ≠ some '_' := by decide
  have hstems : ∀ stem ∈ stems, stem.toList.all isNamePart = true ∧
      stem.toList ≠ [] ∧ stem.toList.head? ≠ some '_' := by decide
  intro w hw
  rcases Compiled.mem_words h hw with hmark | hw | ⟨stem, hstem, a, ha, rfl⟩
  · refine ⟨fun ch hch => (ne_of_isMark hmark hch).1, fun hhead => ?_⟩
    exact (ne_of_isMark hmark (List.mem_of_head? hhead)).2 rfl
  · refine (hown w hw).imp_left fun hall ch hch => ?_
    simpa using List.all_eq_true.mp hall ch hch
  · obtain ⟨hparts, hne, hhead⟩ := hstems stem hstem
    rw [String.toList_append]
    constructor
    · intro ch hch
      rcases List.mem_append.mp hch with hch | hch
      · exact ne_brace_of_isNamePart (List.all_eq_true.mp hparts ch hch)
      · exact ne_brace_of_isNamePart ((hnames a ha).parts ch hch)
    · rwa [List.head?_append_of_ne_nil _ hne]

/-- A name of the rule behind a stem has two underscores in a row when it starts with one. -/
lemma hasDoubleUnderscore_stem {stem a : String} (hstem : stem ∈ stems) (ha : Nameable a) :
    hasDoubleUnderscore (stem ++ a).toList = decide (a.toList.head? = some '_') := by
  have hstems : ∀ stem ∈ stems,
      hasDoubleUnderscore stem.toList = false ∧ stem.toList.getLast? = some '_' := by decide
  obtain ⟨hdouble, hlast⟩ := hstems stem hstem
  rw [String.toList_append, hasDoubleUnderscore_append, hdouble, hlast, ha.double]
  simp

/-- Which words of the shader have two underscores in a row. -/
lemma Compiled.hasDoubleUnderscore_words {config : Config} {c : Compiled}
    (h : config.compile = .ok c) :
    (∃ w ∈ c.shader.words, hasDoubleUnderscore w.toList = true) ↔
      ∃ a ∈ c.names, a.toList.head? = some '_' := by
  have hnames := (Config.wellFormed_of_compile h).nameable
  constructor
  · rintro ⟨w, hw, hdouble⟩
    rcases Compiled.mem_words h hw with hmark | hw | ⟨stem, hstem, a, ha, rfl⟩
    · rw [hasDoubleUnderscore_eq_false fun hmem => (ne_of_isMark hmark hmem).2 rfl] at hdouble
      cases hdouble
    · have hown : ∀ w ∈ ownWords, hasDoubleUnderscore w.toList = false := by decide
      rw [hown w hw] at hdouble
      cases hdouble
    · rw [hasDoubleUnderscore_stem hstem (hnames a ha), decide_eq_true_eq] at hdouble
      exact ⟨a, ha, hdouble⟩
  · rintro ⟨a, ha, hhead⟩
    obtain ⟨stem, hstem, hw⟩ := exists_stem_of_generate (Config.generated_of_compile h) ha
    refine ⟨stem ++ a, hw, ?_⟩
    rw [hasDoubleUnderscore_stem hstem (hnames a ha), hhead]
    rfl

/-! ## Identifiers

An identifier is a run of name characters in the text, whatever the printer meant by it.
-/

/-- The identifiers in a text, and its numbers: the longest runs of name characters. -/
def identifiers (text : String) : List (List Char) := text.toList.splitOnP fun c => !isNamePart c

/-- Two underscores in a row are part of one identifier. -/
lemma hasDoubleUnderscore_identifiers (text : String) :
    (∃ w ∈ identifiers text, hasDoubleUnderscore w = true) ↔
      hasDoubleUnderscore text.toList = true := by
  rw [identifiers]
  generalize text.toList = cs
  -- the first run starts with an underscore when the text does
  suffices hall : ∃ first more, cs.splitOnP (fun c => !isNamePart c) = first :: more ∧
      (first.head? = some '_' ↔ cs.head? = some '_') ∧
      ((hasDoubleUnderscore first = true ∨ ∃ w ∈ more, hasDoubleUnderscore w = true) ↔
        hasDoubleUnderscore cs = true) by
    obtain ⟨first, more, hsplit, -, hdouble⟩ := hall
    rw [hsplit, List.exists_mem_cons_iff, hdouble]
  induction cs with
  | nil => exact ⟨[], [], by simp, by simp, by simp [hasDoubleUnderscore]⟩
  | cons c cs ih =>
      obtain ⟨first, more, hsplit, hhead, hdouble⟩ := ih
      rw [List.splitOnP_cons_eq_if_modifyHead, hsplit]
      cases hc : isNamePart c with
      | true =>
          refine ⟨c :: first, more, by simp, by simp, ?_⟩
          rw [hasDoubleUnderscore_cons, hasDoubleUnderscore_cons, Bool.or_eq_true, Bool.or_eq_true,
            ← hdouble, or_assoc]
          simp [hhead]
      | false =>
          have hne : c ≠ '_' := by
            rintro rfl
            exact absurd hc (by decide)
          refine ⟨[], first :: more, by simp, by simp [hne], ?_⟩
          rw [hasDoubleUnderscore_cons, List.exists_mem_cons_iff, hdouble]
          simp [hne, hasDoubleUnderscore]

/-! ## Compiled shaders

The last theorems put the check of the trees and the texture of the text together.
-/

/-- **Two underscores in a row come from names that start with an underscore.**  An identifier in the
text of the shader of a compiled rule has two underscores in a row just when a field, a kernel or a
variable of the rule has a name that starts with one. -/
theorem Compiled.reserved_identifier_iff {config : Config} {c : Compiled}
    (h : config.compile = .ok c) :
    (∃ w ∈ identifiers c.shader.text, hasDoubleUnderscore w = true) ↔
      ∃ name ∈ c.names, name.toList.head? = some '_' := by
  have htidy := (woven_text c.shader).tidy fun w hw => (Compiled.plain_words h w hw).2
  rw [hasDoubleUnderscore_identifiers, htidy.double, List.any_eq_true]
  exact Compiled.hasDoubleUnderscore_words h

/-- A rule with a field whose name starts with an underscore. -/
def Config.underscored : Config :=
  { state := [⟨"_a", "flag", 0⟩]
    neighbourCounts := []
    program := "" }

set_option maxRecDepth 100000 in
/-- It compiles, and an identifier of its shader has two underscores in a row. -/
theorem Compiled.reserved_identifier_underscored :
    ∃ c, Config.underscored.compile = .ok c ∧
      ∃ w ∈ identifiers c.shader.text, hasDoubleUnderscore w = true := by
  obtain ⟨c, hc, hfields⟩ : ∃ c, Config.underscored.compile = .ok c ∧
      c.layout.fields.map Field.name = ["_a"] := exists_ok_of_toOption (by decide +kernel)
  refine ⟨c, hc, (Compiled.reserved_identifier_iff hc).mpr ⟨"_a", ?_, rfl⟩⟩
  simp [Compiled.names, hfields]

/-- **The shader of a compiled rule is well-formed.**  It passes the static check, which makes sure
that every name is declared before it is used, that no scope declares a name twice, and that all types
agree; and in its text braces balance. -/
theorem Compiled.shader_wellFormed {config : Config} {c : Compiled} (h : config.compile = .ok c) :
    (∃ globals, c.shader.check = some globals) ∧ BracesBalance c.shader.text := by
  refine ⟨Compiled.check_shader h, ?_⟩
  exact (woven_text c.shader).level (fun w hw => (Compiled.plain_words h w hw).1) 0

/-- The shader of a rule with two fields, a kernel on a closed board and an inner block. -/
theorem Compiled.shader_wellFormed_aging :
    ∃ c, Config.aging.compile = .ok c ∧ (∃ globals, c.shader.check = some globals) ∧
      BracesBalance c.shader.text := by
  obtain ⟨c, hc, -⟩ := Config.aging_compiles
  exact ⟨c, hc, Compiled.shader_wellFormed hc⟩

end Cellular
