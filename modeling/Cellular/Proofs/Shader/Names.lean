import Cellular.Proofs.Rule.Scoping
import Cellular.Proofs.Shader.Simulation

/-!
# The names of a shader

A shader has names of its own, and names that it builds from those of a rule: each sort of entity
puts its own stem in front.  Where no stem begins with another one, names of different sorts differ.
There is one exception: the weight table is called what the count of a kernel `texture` would be.

* `Family` are names with a common stem; `nodup_families` tells families and fixed names apart.
* `Shader.globalNames` and `Shader.entryNames` are the names that a shader declares outside of its
  functions and in its entry point.
* `Shader.names_generate` computes both for a generated shader.
* `Compiled.names_nodup_iff`: the names of a compiled rule are distinct unless a kernel is called
  `texture`.

That two built names differ is decided by looking at their stems only, and there are six of them and
nine fixed names at most, so all comparisons of names come down to one finite check.  What remains
are names with one stem, and these differ as the names of the rule do.  The weight table is left out
of this argument and treated last.
-/

namespace Cellular

open Shader

/-! ## Names with a stem

It is not enough for two stems to be different: if one of them began with the other, a name could be
chosen such that both give the same.
-/

namespace Shader

/-- Neither of two texts begins with the other. -/
def Diverge (p q : String) : Prop := ¬ p.toList <+: q.toList ∧ ¬ q.toList <+: p.toList

instance (p q : String) : Decidable (Diverge p q) := inferInstanceAs (Decidable (_ ∧ _))

/-- A name with a stem is none that does not begin with it. -/
lemma append_ne {stem name : String} (h : ¬ stem.toList <+: name.toList) (a : String) :
    stem ++ a ≠ name := by
  rintro rfl
  exact h (by simp)

/-- A name does not begin with what its stem diverges from. -/
lemma not_prefix_append {p q : String} (h : Diverge p q) (a : String) :
    ¬ p.toList <+: (q ++ a).toList := by
  intro hp
  have hq : q.toList <+: (q ++ a).toList := by simp
  rcases List.prefix_or_prefix_of_prefix hp hq with hprefix | hprefix
  · exact h.1 hprefix
  · exact h.2 hprefix

/-- Names with diverging stems differ. -/
lemma append_ne_append {p q : String} (h : Diverge p q) (a b : String) : p ++ a ≠ q ++ b :=
  append_ne (not_prefix_append h b) a

/-- Names that begin with a common stem, given by what stands behind it. -/
structure Family where
  stem : String
  members : List String

/-- The names of a family. -/
def Family.names (f : Family) : List String := f.members.map (f.stem ++ ·)

lemma Family.nodup_names {f : Family} (h : f.members.Nodup) : f.names.Nodup :=
  h.map fun _ _ => (String.append_right_inj f.stem).mp

lemma Family.disjoint_names {f g : Family} (h : Diverge f.stem g.stem) :
    List.Disjoint f.names g.names := by
  intro name hf hg
  obtain ⟨a, -, rfl⟩ := List.mem_map.mp hf
  obtain ⟨b, -, hb⟩ := List.mem_map.mp hg
  exact append_ne_append h a b hb.symm

/-- **Families with diverging stems and fixed names with none of these stems have no name in
common.** -/
lemma nodup_families {fixed : List String} {families : List Family} (hfixed : fixed.Nodup)
    (hmembers : ∀ f ∈ families, f.members.Nodup)
    (hstems : (families.map Family.stem).Pairwise Diverge)
    (hfronts : ∀ name ∈ fixed, ∀ stem ∈ families.map Family.stem,
      ¬ stem.toList <+: name.toList) :
    (fixed ++ families.flatMap Family.names).Nodup := by
  rw [List.nodup_append, List.nodup_flatMap]
  refine ⟨hfixed, ⟨fun f hf => Family.nodup_names (hmembers f hf), ?_⟩, ?_⟩
  · exact (List.pairwise_map.mp hstems).imp Family.disjoint_names
  · intro name hname other hother
    obtain ⟨f, hf, hmem⟩ := List.mem_flatMap.mp hother
    obtain ⟨a, -, rfl⟩ := List.mem_map.mp hmem
    exact (append_ne (hfronts name hname f.stem (List.mem_map_of_mem hf)) a).symm

end Shader

/-! ## Declared names

The names are read off the code, not off the rule.  For the variables of a rule this is an induction
on its statements, along which the scope changes.
-/

/-- The names that a shader declares outside of its functions, its functions among them. -/
def Shader.globalNames (s : Shader) : List String :=
  (s.uniforms ++ s.outputs ++ s.globals).map (·.name) ++ s.functions.map (·.name)

/-- The variables that the entry point of a shader declares, those of inner braces left out. -/
def Shader.entryNames (s : Shader) : List String :=
  (s.functions.filter (·.name = "main")).flatMap fun f =>
    f.params.map (·.name) ++ f.body.filterMap Code.declared?

/-- The variables that a rule declares outside of inner blocks. -/
def Program.declared {α : Type} (p : Program α) : List String :=
  (Stmt.bindings p.body).map Binding.name

namespace Shader

/-- The functions in front of those that count: the board is read, closed onto itself where a kernel
needs it, and the fields of a cell are read and written. -/
def helpers (l : Layout) (ks : KernelSet) : List Function :=
  cellAt :: (if ks.kernels.any (·.overflow = .wrap) then [wrapFunction] else [])
    ++ l.fields.flatMap fun f => [getter f, setter f]

/-- The parts of a generated shader. -/
lemma generate_parts {l : Layout} {ks : KernelSet} {p : Program Note} {s : Shader}
    (h : Shader.generate l ks p = .ok s) :
    ∃ counts rule, countFunctions ks ks.kernels = .ok counts ∧ Stmt.toCodes ks p.body = .ok rule ∧
      s.uniforms = [⟨.usampler2D, boardName⟩, ⟨.sampler2DArray, weightsName⟩,
        ⟨.ivec2, boardSizeName⟩] ∧
      s.outputs = [⟨.uvec4, outputName⟩] ∧ s.globals = [⟨.ivec2, coordName⟩] ∧
      s.functions = helpers l ks ++ counts ++ [mainFunction l ks rule] := by
  simp only [Shader.generate, bind_eq_ok, pure_eq_ok] at h
  obtain ⟨counts, hcounts, rule, hrule, rfl⟩ := h
  exact ⟨counts, rule, hcounts, hrule, rfl, rfl, rfl, rfl⟩

/-- The code of a declaration declares its variable, and no other code declares one. -/
lemma declared?_toCode {ks : KernelSet} {scope : Scope} {start : Nat} {s : Stmt Note} {c : Code}
    (hs : s.WellTyped scope start) (h : s.toCode ks = .ok c) :
    c.declared? = s.binding?.map fun b => userVar b.name := by
  cases s with
  | block n body =>
      simp only [Stmt.toCode, bind_eq_ok, pure_eq_ok] at h
      obtain ⟨_, -, rfl⟩ := h
      rfl
  | declare n type name init =>
      simp only [Stmt.toCode, bind_eq_ok, pure_eq_ok] at h
      obtain ⟨_, -, rfl⟩ := h
      simp [Code.declared?, Stmt.binding?, hs.2.1]
  | assign n m target op value =>
      simp only [Stmt.toCode, bind_eq_ok, assignCode] at h
      obtain ⟨_, -, h⟩ := h
      split at h
      · cases h
        rfl
      · split_ifs at h
        cases h
        rfl
      · cases h
  | when n test body =>
      simp only [Stmt.toCode, bind_eq_ok, pure_eq_ok] at h
      obtain ⟨_, -, _, -, rfl⟩ := h
      rfl
  | branch n test yes no =>
      simp only [Stmt.toCode, bind_eq_ok, pure_eq_ok] at h
      obtain ⟨_, -, _, -, _, -, rfl⟩ := h
      rfl

/-- The code of a rule declares the variables of the rule. -/
lemma declared_toCodes {ks : KernelSet} {start : Nat} :
    ∀ {scope : Scope} {body : List (Stmt Note)} {rule : List Code},
      Stmt.AllWellTyped scope start body → Stmt.toCodes ks body = .ok rule →
        rule.filterMap Code.declared? = ((Stmt.bindings body).map Binding.name).map userVar
  | _, [], rule, _, h => by
      cases h
      rfl
  | scope, s :: body, rule, ⟨hs, hbody⟩, h => by
      simp only [Stmt.toCodes, bind_eq_ok, pure_eq_ok] at h
      obtain ⟨code, hcode, more, hmore, rfl⟩ := h
      have ih := declared_toCodes hbody hmore
      have hhead := declared?_toCode hs hcode
      simp only [Stmt.bindings, List.filterMap_cons] at ih ⊢
      rw [hhead, ih]
      cases s.binding? <;> rfl

lemma names_countFunctions {ks : KernelSet} {kernels : List Kernel} {functions : List Function}
    (h : countFunctions ks kernels = .ok functions) :
    functions.map (·.name) = (kernels.map Kernel.name).map countName := by
  have hfunctions := forall₂_countFunctions h
  clear h
  induction hfunctions with
  | nil => rfl
  | cons hf _ ih =>
      obtain ⟨value, -, rfl⟩ := hf
      rw [List.map_cons, List.map_cons, List.map_cons, ih]
      rfl

lemma names_helpers (l : Layout) (ks : KernelSet) :
    (helpers l ks).map (·.name)
      = cellAtName :: (if ks.kernels.any (·.overflow = .wrap) then [wrapName] else [])
        ++ (l.fields.map Field.name).flatMap fun a => [getterName a, setterName a] := by
  have hwraps : ∀ p : Prop, [Decidable p] →
      (if p then [wrapFunction] else []).map (·.name) = if p then [wrapName] else [] := by
    intro p _
    split_ifs <;> rfl
  simp [helpers, hwraps, List.map_flatMap, List.flatMap_map, cellAt, getter, setter]

lemma declared_mainFunction (l : Layout) (ks : KernelSet) (rule : List Code) :
    (mainFunction l ks rule).body.filterMap Code.declared?
      = (ks.kernels.map Kernel.name).map countLocal ++ [cellName]
        ++ (l.fields.map Field.name).map prevLocal ++ rule.filterMap Code.declared? ++ ["next"] := by
  simp [mainFunction, Code.set, Code.declared?, List.filterMap_cons, List.filterMap_append,
    List.filterMap_map, Function.comp_def]

/-- No other function has the name of the entry point. -/
lemma name_ne_main {l : Layout} {ks : KernelSet} {counts : List Function}
    (hcounts : countFunctions ks ks.kernels = .ok counts) :
    ∀ f ∈ helpers l ks ++ counts, f.name ≠ "main" := by
  intro f hf
  have hname : f.name ∈ (helpers l ks ++ counts).map (·.name) := List.mem_map_of_mem hf
  rw [List.map_append, names_helpers, names_countFunctions hcounts] at hname
  simp only [List.mem_append, List.mem_cons, List.mem_flatMap, List.mem_map, List.not_mem_nil,
    or_false] at hname
  rcases hname with ((hname | hname) | ⟨a, -, hname | hname⟩) | ⟨k, -, hname⟩
  · rw [hname]
    decide
  · split_ifs at hname with hwrap
    · rw [List.mem_singleton.mp hname]
      decide
    · exact absurd hname List.not_mem_nil
  · rw [hname]
    exact append_ne (by decide) a
  · rw [hname]
    exact append_ne (by decide) a
  · rw [← hname]
    exact append_ne (by decide) k

/-- **What a shader declares**, outside of its functions and in its entry point. -/
theorem names_generate {l : Layout} {ks : KernelSet} {p : Program Note} {s : Shader} {scope : Scope}
    {start : Nat} (htyped : Stmt.AllWellTyped scope start p.body)
    (h : Shader.generate l ks p = .ok s) :
    s.globalNames = [boardName, weightsName, boardSizeName, outputName, coordName]
        ++ (helpers l ks).map (·.name) ++ (ks.kernels.map Kernel.name).map countName ++ ["main"] ∧
      s.entryNames = (ks.kernels.map Kernel.name).map countLocal ++ [cellName]
        ++ (l.fields.map Field.name).map prevLocal ++ p.declared.map userVar ++ ["next"] := by
  obtain ⟨counts, rule, hcounts, hrule, huniforms, houtputs, hglobals, hfunctions⟩ :=
    generate_parts h
  constructor
  · rw [Shader.globalNames, huniforms, houtputs, hglobals, hfunctions, ← names_countFunctions hcounts]
    simp [mainFunction]
  · have hothers := name_ne_main (l := l) hcounts
    rw [Shader.entryNames, hfunctions, List.filter_append,
      List.filter_eq_nil_iff.mpr (by simpa using hothers), Program.declared,
      ← declared_toCodes htyped hrule, ← declared_mainFunction l ks rule]
    simp [mainFunction]

end Shader

/-! ## Distinct names

The names come in the order of their declarations.  They are permuted into fixed names and families,
to which the general lemma applies.
-/

namespace Shader

/-- What a shader puts in front of the names of its rule. -/
def stems : List String :=
  ["get_cell_state_", "set_cell_state_", "cell_state_", "count_neighbours_", "neighbour_count_",
    "user_var_"]

/-- The families of names that a shader builds, where its rule declares the variables `vars`. -/
def families (l : Layout) (ks : KernelSet) (vars : List String) : List Family :=
  let fields := l.fields.map Field.name
  let kernels := ks.kernels.map Kernel.name
  [⟨"get_cell_state_", fields⟩, ⟨"set_cell_state_", fields⟩, ⟨"cell_state_", fields⟩,
    ⟨"count_neighbours_", kernels⟩, ⟨"neighbour_count_", kernels⟩, ⟨"user_var_", vars⟩]

lemma stems_families (l : Layout) (ks : KernelSet) (vars : List String) :
    (families l ks vars).map Family.stem = stems := rfl

/-- The names that a shader has for itself, the weight table left out. -/
def fixedNames (ks : KernelSet) : List String :=
  [boardName, boardSizeName, outputName, coordName, cellAtName, "main", cellName, "next"]
    ++ if ks.kernels.any (·.overflow = .wrap) then [wrapName] else []

/-- No family takes a fixed name, and no two families have a name in common. -/
lemma nodup_fixed_families {l : Layout} {ks : KernelSet} {vars : List String}
    (hfields : (l.fields.map Field.name).Nodup) (hkernels : (ks.kernels.map Kernel.name).Nodup)
    (hvars : vars.Nodup) :
    (fixedNames ks ++ (families l ks vars).flatMap Family.names).Nodup := by
  have hfixed : (fixedNames ks).Nodup ∧ ∀ name ∈ fixedNames ks,
      ∀ stem ∈ (families l ks vars).map Family.stem, ¬ stem.toList <+: name.toList := by
    rw [fixedNames, stems_families]
    split_ifs <;> decide
  refine nodup_families hfixed.1 ?_ ?_ hfixed.2
  · simp only [families, List.forall_mem_cons]
    exact ⟨hfields, hfields, hfields, hkernels, hkernels, hvars, by simp⟩
  · rw [stems_families]
    decide

/-- The getters and the setters of some fields, one after the other or in turn. -/
lemma accessors_perm (fields : List String) :
    (fields.flatMap fun a => [getterName a, setterName a]).Perm
      (fields.map getterName ++ fields.map setterName) := by
  have hperm := List.map_append_flatMap_perm fields getterName fun a => [setterName a]
  rw [← List.map_eq_flatMap] at hperm
  exact hperm.symm

/-- In another order, a shader declares the weight table, the fixed names and the families. -/
lemma names_perm {l : Layout} {ks : KernelSet} {p : Program Note} {s : Shader} {scope : Scope}
    {start : Nat} (htyped : Stmt.AllWellTyped scope start p.body)
    (h : Shader.generate l ks p = .ok s) :
    (s.globalNames ++ s.entryNames).Perm
      (weightsName :: (fixedNames ks ++ (families l ks p.declared).flatMap Family.names)) := by
  obtain ⟨hglobal, hentry⟩ := names_generate htyped h
  have hfamilies : (families l ks p.declared).flatMap Family.names
      = (l.fields.map Field.name).map getterName ++ ((l.fields.map Field.name).map setterName
        ++ ((l.fields.map Field.name).map prevLocal ++ ((ks.kernels.map Kernel.name).map countName
        ++ ((ks.kernels.map Kernel.name).map countLocal ++ p.declared.map userVar)))) := by
    simp only [families, List.flatMap_cons, List.flatMap_nil, List.append_nil]
    rfl
  rw [hglobal, hentry, names_helpers, hfamilies, fixedNames, List.perm_iff_count]
  intro name
  have haccessors := (accessors_perm (l.fields.map Field.name)).count_eq name
  simp only [List.count_append, List.count_cons, List.count_nil] at haccessors ⊢
  rw [haccessors]
  ring

/-- The weight table has the name of a count, and of no other entity. -/
lemma weightsName_mem_iff {l : Layout} {ks : KernelSet} {vars : List String} :
    weightsName ∈ fixedNames ks ++ (families l ks vars).flatMap Family.names ↔
      ∃ k ∈ ks.kernels, k.name = "texture" := by
  have hfixed : weightsName ∉ fixedNames ks := by
    rw [fixedNames]
    split_ifs <;> decide
  have hothers : ∀ stem ∈ stems, stem.toList <+: weightsName.toList → stem = "neighbour_count_" := by
    decide
  rw [List.mem_append, or_iff_right hfixed]
  constructor
  · intro hmem
    obtain ⟨f, hf, hmem⟩ := List.mem_flatMap.mp hmem
    obtain ⟨a, ha, hname⟩ := List.mem_map.mp hmem
    have hstem : f.stem = "neighbour_count_" := by
      refine hothers f.stem (List.mem_map_of_mem (f := Family.stem) hf) ?_
      simp [← hname]
    simp only [families, List.mem_cons, List.not_mem_nil, or_false] at hf
    rcases hf with rfl | rfl | rfl | rfl | rfl | rfl <;> simp at hstem
    obtain ⟨k, hk, rfl⟩ := List.mem_map.mp ha
    exact ⟨k, hk, countLocal_inj.mp hname⟩
  · rintro ⟨k, hk, hname⟩
    refine List.mem_flatMap.mpr ⟨⟨"neighbour_count_", ks.kernels.map Kernel.name⟩, ?_, ?_⟩
    · simp [families]
    · exact List.mem_map.mpr ⟨"texture", hname ▸ List.mem_map_of_mem hk, rfl⟩

end Shader

/-- **The names of a shader are distinct unless a kernel is called `texture`**, whose count has the
name of the weight table. -/
theorem Compiled.names_nodup_iff {config : Config} {c : Compiled} (h : config.compile = .ok c) :
    (c.shader.globalNames ++ c.shader.entryNames).Nodup ↔
      ∀ k ∈ c.kernels.kernels, k.name ≠ "texture" := by
  have hc := Config.wellFormed_of_compile h
  obtain ⟨specs, hpack⟩ := hc.packed
  have hnodup : (fixedNames c.kernels ++ (families c.layout c.kernels c.program.declared).flatMap
      Family.names).Nodup :=
    nodup_fixed_families (Layout.nodup_names_of_pack hpack) hc.kernels.names_nodup hc.typed.nodup
  rw [(names_perm hc.typed (Config.generated_of_compile h)).nodup_iff, List.nodup_cons,
    and_iff_left hnodup, weightsName_mem_iff]
  simp

/-- The names of a rule with two fields, a kernel and no variables outside of blocks. -/
theorem Compiled.names_nodup_aging :
    ∃ c, Config.aging.compile = .ok c ∧ (c.shader.globalNames ++ c.shader.entryNames).Nodup := by
  obtain ⟨c, hc, hkernels⟩ := Config.aging_compiles
  refine ⟨c, hc, (Compiled.names_nodup_iff hc).mpr fun k hk => ?_⟩
  have hmem := List.mem_map_of_mem (f := fun k : Kernel => (k.name, k.result)) hk
  rw [hkernels, List.mem_singleton] at hmem
  rw [(Prod.mk.inj hmem).1]
  decide

/-- A rule with a kernel whose count is called like the weight table. -/
def Config.textured : Config :=
  { state := [⟨"alive", "flag", 0⟩]
    neighbourCounts := [⟨"texture", [[1]], "cell.alive", "int", "zero"⟩]
    program := "" }

set_option maxRecDepth 100000 in
/-- Its entry point declares the name of the weight table again. -/
theorem Compiled.names_not_nodup_textured :
    ∃ c, Config.textured.compile = .ok c ∧ weightsName ∈ c.shader.globalNames ∧
      weightsName ∈ c.shader.entryNames ∧
      ¬ (c.shader.globalNames ++ c.shader.entryNames).Nodup := by
  obtain ⟨c, hc, hnames⟩ :
      ∃ c, Config.textured.compile = .ok c ∧ (decide (weightsName ∈ c.shader.globalNames)
        && decide (weightsName ∈ c.shader.entryNames)) = true :=
    exists_ok_of_toOption (by decide +kernel)
  simp only [Bool.and_eq_true, decide_eq_true_eq] at hnames
  refine ⟨c, hc, hnames.1, hnames.2, fun hnodup => ?_⟩
  exact (List.nodup_append.mp hnodup).2.2 weightsName hnames.1 weightsName hnames.2 rfl

end Cellular
