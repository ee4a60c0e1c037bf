import Cellular.Compile
import Cellular.Proofs.Kernels
import Mathlib.Data.List.Forall2

/-!
# Compiled rules

What it takes for a configuration to compile, stage by stage.

A configuration goes through five stages: its state fields are packed, its kernels are checked, its
program is parsed, checked against the names of both, and translated to a shader.  A stage sees only
what the stages before it gave, and the first failure is the answer.  `Config.compile_eq_ok_iff`
says that nothing else can make a compilation fail, and `Compiled.WellFormed` keeps what each stage
has made sure of, so that theorems about compiled rules start from its fields and open no stage
again.

The stage that looks the least like a check is the last one.  A name of a whole cell is well-typed,
but it has no shader code, and so a rule that was translated uses no such name: from here on all
expressions are scalars.

* `Expr.scalars_of_toTerm` and `Stmt.scalars_of_toCode`: what has shader code names no whole cell.
* `Compiled.WellFormed` collects what the five stages leave behind.
* `Config.compile_eq_ok_iff` takes a compilation apart; `Config.wellFormed_of_compile`: a compiled
  rule is well-formed.
* `Config.aging` is a small rule that compiles.
-/

namespace Cellular

/-! ## Translated rules

Translation goes by recursion on the tree, and a failure anywhere fails the whole.  That a tree was
translated therefore says something about each of its parts, which is what the lemmas below collect:
no part names a whole cell, and every kernel has got its counting function.
-/

/-- A name of a whole cell has no shader code. -/
lemma Expr.scalars_of_toTerm {ks : KernelSet} :
    ∀ {e : Expr Note} {t : Shader.Term}, e.toTerm ks = .ok t → e.Scalars
  | .ternary n test yes no, t, h => by
      simp only [Expr.toTerm, bind_eq_ok] at h
      obtain ⟨_, htest, _, hyes, _, hno, -⟩ := h
      exact ⟨scalars_of_toTerm htest, scalars_of_toTerm hyes, scalars_of_toTerm hno⟩
  | .binary n op left right, t, h => by
      simp only [Expr.toTerm, bind_eq_ok] at h
      obtain ⟨_, hleft, _, hright, -⟩ := h
      exact ⟨scalars_of_toTerm hleft, scalars_of_toTerm hright⟩
  | .unary n op operand, t, h => by
      simp only [Expr.toTerm, bind_eq_ok] at h
      obtain ⟨_, hoperand, -⟩ := h
      exact scalars_of_toTerm (e := operand) hoperand
  | .cast n target operand, t, h => by
      simp only [Expr.toTerm, bind_eq_ok] at h
      obtain ⟨_, hoperand, -⟩ := h
      exact scalars_of_toTerm (e := operand) hoperand
  | .int n v text, t, h => trivial
  | .float n v text, t, h => trivial
  | .bool n v, t, h => trivial
  | .access n path, t, h => by
      intro hstruct
      simp [Expr.toTerm, Path.toTerm, hstruct] at h

mutual

/-- The expressions of a translated statement name no whole cell. -/
theorem Stmt.scalars_of_toCode {ks : KernelSet} :
    ∀ {s : Stmt Note} {c : Shader.Code}, s.toCode ks = .ok c → s.Scalars
  | .block n body, c, h => by
      simp only [Stmt.toCode, bind_eq_ok] at h
      obtain ⟨_, hbody, -⟩ := h
      exact Stmt.allScalars_of_toCodes hbody
  | .declare n type name none, c, h => by simp [Stmt.Scalars]
  | .declare n type name (some e), c, h => by
      simp only [Stmt.toCode, bind_eq_ok] at h
      obtain ⟨_, hinit, -⟩ := h
      simpa [Stmt.Scalars] using Expr.scalars_of_toTerm hinit
  | .assign n m target op value, c, h => by
      simp only [Stmt.toCode, bind_eq_ok] at h
      obtain ⟨_, hvalue, -⟩ := h
      exact Expr.scalars_of_toTerm hvalue
  | .when n test body, c, h => by
      simp only [Stmt.toCode, bind_eq_ok] at h
      obtain ⟨_, htest, _, hbody, -⟩ := h
      exact ⟨Expr.scalars_of_toTerm htest, Stmt.scalars_of_toCode hbody⟩
  | .branch n test yes no, c, h => by
      simp only [Stmt.toCode, bind_eq_ok] at h
      obtain ⟨_, htest, _, hyes, _, hno, -⟩ := h
      exact ⟨Expr.scalars_of_toTerm htest, Stmt.scalars_of_toCode hyes, Stmt.scalars_of_toCode hno⟩

/-- The expressions of translated statements name no whole cell. -/
theorem Stmt.allScalars_of_toCodes {ks : KernelSet} :
    ∀ {ss : List (Stmt Note)} {cs : List Shader.Code}, Stmt.toCodes ks ss = .ok cs →
      Stmt.AllScalars ss
  | [], cs, h => trivial
  | s :: ss, cs, h => by
      simp only [Stmt.toCodes, bind_eq_ok] at h
      obtain ⟨_, hs, _, hss, -⟩ := h
      exact ⟨Stmt.scalars_of_toCode hs, Stmt.allScalars_of_toCodes hss⟩

end

/-- Every kernel of a set with counting functions has a value function with shader code. -/
lemma Shader.scalars_of_countFunctions {ks : KernelSet} :
    ∀ {kernels : List Kernel} {functions : List Shader.Function},
      Shader.countFunctions ks kernels = .ok functions → ∀ k ∈ kernels, k.value.Scalars
  | [], functions, h => by simp
  | k :: kernels, functions, h => by
      simp only [Shader.countFunctions, bind_eq_ok] at h
      obtain ⟨_, hvalue, _, hmore, -⟩ := h
      rw [List.forall_mem_cons]
      exact ⟨Expr.scalars_of_toTerm hvalue, scalars_of_countFunctions hmore⟩

/-- Every kernel has its counting function, in order. -/
lemma Shader.forall₂_countFunctions {ks : KernelSet} :
    ∀ {kernels : List Kernel} {functions : List Shader.Function},
      Shader.countFunctions ks kernels = .ok functions →
        List.Forall₂ (fun k f => ∃ value, k.value.toTerm ks = .ok value ∧
          f = Shader.countFunction k value) kernels functions
  | [], functions, h => by
      cases h
      exact .nil
  | k :: kernels, functions, h => by
      simp only [Shader.countFunctions, bind_eq_ok, pure_eq_ok] at h
      obtain ⟨value, hvalue, others, hothers, rfl⟩ := h
      exact .cons ⟨value, hvalue, rfl⟩ (forall₂_countFunctions hothers)

/-- A kernel has a counting function. -/
lemma Shader.exists_countFunction {ks : KernelSet} {kernels : List Kernel}
    {functions : List Shader.Function} (h : Shader.countFunctions ks kernels = .ok functions)
    {k : Kernel} (hk : k ∈ kernels) :
    ∃ value, k.value.toTerm ks = .ok value ∧ Shader.countFunction k value ∈ functions := by
  obtain ⟨hlength, hall⟩ := List.forall₂_iff_get.mp (forall₂_countFunctions h)
  obtain ⟨i, rfl⟩ := List.mem_iff_get.mp hk
  obtain ⟨value, hvalue, hf⟩ := hall i i.2 (hlength ▸ i.2)
  exact ⟨value, hvalue, hf ▸ List.get_mem _ _⟩

/-- Counting functions are those of kernels. -/
lemma Shader.exists_kernel_of_mem {ks : KernelSet} {kernels : List Kernel}
    {functions : List Shader.Function} (h : Shader.countFunctions ks kernels = .ok functions)
    {f : Shader.Function} (hf : f ∈ functions) :
    ∃ k ∈ kernels, ∃ value, k.value.toTerm ks = .ok value ∧ f = Shader.countFunction k value :=
  exists_left_of_forall₂ (forall₂_countFunctions h) f hf

/-- A generated shader runs the code of the rule in its entry point. -/
lemma Shader.generate_eq_ok {l : Layout} {ks : KernelSet} {p : Program Note} {shader : Shader}
    (h : Shader.generate l ks p = .ok shader) :
    (∀ k ∈ ks.kernels, k.value.Scalars) ∧
      ∃ rule, Stmt.toCodes ks p.body = .ok rule ∧
        Shader.mainFunction l ks rule ∈ shader.functions := by
  simp only [Shader.generate, bind_eq_ok, pure_eq_ok] at h
  obtain ⟨counts, hcounts, rule, hrule, rfl⟩ := h
  exact ⟨Shader.scalars_of_countFunctions hcounts, rule, hrule, by simp⟩

/-! ## Stages

Each stage has its own theory in other modules.  Here the success of the whole is taken apart into
the success of the stages, and the invariants that the stages establish are put side by side.
-/

/-- What the stages of a compilation leave behind: a packed state, checked kernels, and a program
that is read as it is spelled, well-typed, and translated. -/
structure Compiled.WellFormed (c : Compiled) : Prop where
  packed : ∃ specs, Layout.pack specs = .ok c.layout
  kernels : c.kernels.Compiled c.layout.cellType
  kernelScalars : ∀ k ∈ c.kernels.kernels, k.value.Scalars
  typed : Stmt.AllWellTyped (rootScope c.layout c.kernels) (rootScope c.layout c.kernels).length
    c.program.body
  spelled : Stmt.AllSpelled c.program.body
  worded : Stmt.AllWorded c.program.body
  translated : ∃ rule, Stmt.toCodes c.kernels c.program.body = .ok rule ∧
    Shader.mainFunction c.layout c.kernels rule ∈ c.shader.functions

/-- No name in the program of a compiled rule stands for a whole cell. -/
lemma Compiled.WellFormed.scalars {c : Compiled} (h : c.WellFormed) :
    Stmt.AllScalars c.program.body := by
  obtain ⟨rule, hrule, -⟩ := h.translated
  exact Stmt.allScalars_of_toCodes hrule

/-- **A configuration compiles exactly if its five stages do**, each on what the stages before gave. -/
theorem Config.compile_eq_ok_iff {config : Config} {c : Compiled} :
    config.compile = .ok c ↔
      (∃ specs, config.fieldSpecs = .ok specs ∧ Layout.pack specs = .ok c.layout) ∧
        KernelSet.compile config.neighbourCounts c.layout.cellType = .ok c.kernels ∧
        (∃ parsed, Program.parse config.program = .ok parsed ∧
          parsed.check (rootScope c.layout c.kernels) = .ok c.program) ∧
        Shader.generate c.layout c.kernels c.program = .ok c.shader := by
  simp only [Config.compile, Config.packed, Config.kernelSet, Config.parsed, Config.checked,
    bind_eq_ok, pure_eq_ok, mapError_eq_ok]
  constructor
  · rintro ⟨layout, ⟨specs, hspecs, hpack⟩, kernels, hkernels, parsed, hparsed, program, hprogram,
      shader, hshader, rfl⟩
    exact ⟨⟨specs, hspecs, hpack⟩, hkernels, ⟨parsed, hparsed, hprogram⟩, hshader⟩
  · rintro ⟨⟨specs, hspecs, hpack⟩, hkernels, ⟨parsed, hparsed, hprogram⟩, hshader⟩
    exact ⟨c.layout, ⟨specs, hspecs, hpack⟩, c.kernels, hkernels, parsed, hparsed, c.program,
      hprogram, c.shader, hshader, rfl⟩

/-- **Compiled rules are well-formed.** -/
theorem Config.wellFormed_of_compile {config : Config} {c : Compiled}
    (h : config.compile = .ok c) : c.WellFormed := by
  obtain ⟨⟨specs, -, hpack⟩, hkernels, ⟨parsed, hparsed, hchecked⟩, hshader⟩ :=
    Config.compile_eq_ok_iff.mp h
  obtain ⟨htyped, hsame⟩ := Program.wellTyped_of_check hchecked
  obtain ⟨hscalars, htranslated⟩ := Shader.generate_eq_ok hshader
  have hspelled : Stmt.AllSpelled (Stmt.mapAll Note.pos c.program.body) :=
    hsame ▸ Program.spelled_of_parse hparsed
  have hworded : Stmt.AllWorded (Stmt.mapAll Note.pos c.program.body) :=
    hsame ▸ Program.worded_of_parse hparsed
  exact {
    packed := ⟨specs, hpack⟩
    kernels := KernelSet.compiled_of_compile hkernels
    kernelScalars := hscalars
    typed := htyped
    spelled := (Stmt.allSpelled_mapAll _ _).mp hspelled
    worded := (Stmt.allWorded_mapAll _ _).mp hworded
    translated := htranslated }

/-- The shader of a compiled rule is the one that is generated for it. -/
lemma Config.generated_of_compile {config : Config} {c : Compiled} (h : config.compile = .ok c) :
    Shader.generate c.layout c.kernels c.program = .ok c.shader :=
  (Config.compile_eq_ok_iff.mp h).2.2.2

/-- A rule over the live neighbours of a cell on a closed board.  The variable `n` of its inner
block hides the kernel, and is declared with the value of the kernel's count. -/
def Config.aging : Config :=
  { state := [⟨"alive", "flag", 0⟩, ⟨"age", "number", 10⟩]
    neighbourCounts := [⟨"n", [[1, 1, 1], [1, 0, 1], [1, 1, 1]], "cell.alive", "int", "wrap"⟩]
    program := "if (prev.alive) \x7b int n = n; cell.age += n; \x7d else cell.alive = n == 3;" }

set_option maxRecDepth 100000 in
lemma Config.aging_compiles : ∃ c, Config.aging.compile = .ok c ∧
    c.kernels.kernels.map (fun k => (k.name, k.result)) = [("n", .int)] :=
  exists_ok_of_toOption (by decide +kernel)

end Cellular
