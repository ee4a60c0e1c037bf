import Cellular.Proofs.Compile
import Cellular.Proofs.Machine.Erasure
import Cellular.Proofs.Reordering.Rules

/-!
# Kernels and names in another order

Neighbour counts that are declared in another order get other layers of the weight table, and their
names get other places in the root scope.

* `Kernel.Alike` relates two kernels of one declaration over alike layouts, `KernelSet.Alike` two
  sets of such kernels in any order.
* `KernelSet.compile_perm` compiles declared kernels in another order.
* `KernelSet.Alike.rootScope`: the scopes that rules start in bind the same names.
* `Shader.exists_generate`: rules with the same code have shaders.

A kernel keeps its matrix, its policy and its type in another order.  It gets another layer, and its
value function is checked against the cell of another layout.  Since a value function that was
checked twice may have different notes, alike kernels are defined by what they were declared as, and
what they have in common is read off the declaration.
-/

namespace Cellular

variable {l m : Layout} {ks ks' : KernelSet} {specs specs' : List KernelSpec}

/-! ## Scopes without variables

A scope of read-only names has no slots to compare, so the order of its names does not matter as
long as none is there twice.
-/

/-- Without slots, names are looked up as in any list. -/
lemma Scope.map_fst_find? (s : Scope) (name : String) :
    (s.find? name).map Prod.fst = List.find? (fun b => b.name = name) s := by
  induction s with
  | nil => rfl
  | cons b s ih =>
      rw [Scope.find?, List.find?_cons]
      by_cases hname : b.name = name
      · simp [hname]
      · simp [hname, ih]

/-- Scopes without variables are alike if their names stand for alike types. -/
lemma Scope.alike_of_builtins {s s' : Scope} (hlength : s'.length = s.length)
    (hs : ∀ b ∈ s, b.assignable = false) (hs' : ∀ b ∈ s', b.assignable = false)
    (h : ∀ name, (List.find? (fun b => b.name = name) s = none ∧
        List.find? (fun b => b.name = name) s' = none) ∨
      ∃ b b', List.find? (fun b => b.name = name) s = some b ∧
        List.find? (fun b => b.name = name) s' = some b' ∧ Ty.Alike l m b.type b'.type) :
    s.Alike l m s' where
  length := hlength
  find? := by
    intro name
    rcases h name with ⟨hnone, hnone'⟩ | ⟨b, b', hb, hb', htype⟩
    · rw [← Scope.map_fst_find?, Option.map_eq_none_iff] at hnone hnone'
      exact .inl ⟨hnone, hnone'⟩
    · have hassign := hs b (List.mem_of_find?_eq_some hb)
      have hassign' := hs' b' (List.mem_of_find?_eq_some hb')
      rw [← Scope.map_fst_find?, Option.map_eq_some_iff] at hb hb'
      obtain ⟨⟨_, slot⟩, hb, rfl⟩ := hb
      obtain ⟨⟨_, slot'⟩, hb', rfl⟩ := hb'
      refine .inr ⟨_, slot, _, slot', hb, hb', hassign'.trans hassign.symm, ?_, htype⟩
      intro hvariable
      rw [hassign] at hvariable
      cases hvariable
  declaredSince := by
    have hnone : ∀ {s : Scope} (_ : ∀ b ∈ s, b.assignable = false) (depth : Nat) (name : String),
        s.declaredSince depth name = false := by
      intro s hs depth name
      rw [Scope.declaredSince, List.any_eq_false]
      intro b hb
      simp [hs b (List.mem_of_mem_take hb)]
    intro depth name
    rw [hnone hs, hnone hs']

/-- The scope of a value function. -/
lemma cellScope_alike (l m : Layout) :
    (Scope.builtin [] cellName l.cellType).Alike l m (Scope.builtin [] cellName m.cellType) := by
  refine Scope.alike_of_builtins rfl (by simp [Scope.builtin]) (by simp [Scope.builtin]) ?_
  intro name
  by_cases hname : cellName = name
  · refine .inr ⟨⟨cellName, l.cellType, false⟩, ⟨cellName, m.cellType, false⟩, ?_, ?_, .cell⟩ <;>
      simp [Scope.builtin, hname]
  · exact .inl ⟨by simp [Scope.builtin, hname], by simp [Scope.builtin, hname]⟩

/-! ## Single kernels

All of this follows from the common declaration.
-/

/-- Two kernels of one declaration. -/
def Kernel.Alike (l m : Layout) (k k' : Kernel) : Prop :=
  ∃ spec : KernelSpec, spec.Declares (Scope.builtin [] cellName l.cellType) k ∧
    spec.Declares (Scope.builtin [] cellName m.cellType) k'

/-- What is declared over one layout is declared over an alike one. -/
lemma KernelSpec.Declares.exists_alike {spec : KernelSpec} {k : Kernel} (hlm : l.Alike m)
    (h : spec.Declares (Scope.builtin [] cellName l.cellType) k) :
    ∃ k', spec.Declares (Scope.builtin [] cellName m.cellType) k' := by
  obtain ⟨read, hread, hcheck⟩ := h.value
  obtain ⟨value, hvalue, halike⟩ := Expr.exists_check hlm (fun _ => rfl : KernelSet.SameNames {} {})
    (cellScope_alike l m) id ((Expr.map_id read).symm ▸ hcheck)
  exact ⟨{ k with value }, h.name, h.named, h.name_ne_cell, h.name_ne_prev, h.matrix, h.size,
    h.result, h.overflow, ⟨read, hread, hvalue⟩, halike.type.isScalar_eq.trans h.scalar⟩

namespace Kernel.Alike

variable {k k' : Kernel}

lemma name_eq (h : Kernel.Alike l m k k') : k'.name = k.name := by
  obtain ⟨spec, hk, hk'⟩ := h
  exact hk'.name.trans hk.name.symm

lemma matrix_eq (h : Kernel.Alike l m k k') : k'.matrix = k.matrix := by
  obtain ⟨spec, hk, hk'⟩ := h
  exact hk'.matrix.trans hk.matrix.symm

lemma size_eq (h : Kernel.Alike l m k k') : k'.width = k.width ∧ k'.height = k.height := by
  obtain ⟨spec, hk, hk'⟩ := h
  obtain ⟨path, hsize⟩ := hk.size
  obtain ⟨path', hsize'⟩ := hk'.size
  obtain ⟨hheight, hwidth⟩ :=
    Prod.mk.inj (Except.ok.inj ((KernelSpec.checkMatrix_path hsize' path).symm.trans hsize))
  exact ⟨hwidth, hheight⟩

lemma result_eq (h : Kernel.Alike l m k k') : k'.result = k.result := by
  obtain ⟨spec, hk, hk'⟩ := h
  exact Option.some.inj (hk'.result.symm.trans hk.result)

lemma overflow_eq (h : Kernel.Alike l m k k') : k'.overflow = k.overflow := by
  obtain ⟨spec, hk, hk'⟩ := h
  exact Option.some.inj (hk'.overflow.symm.trans hk.overflow)

lemma bare_value (h : Kernel.Alike l m k k') : k'.value.bare = k.value.bare := by
  obtain ⟨spec, hk, hk'⟩ := h
  obtain ⟨read, hread, hcheck⟩ := hk.value
  obtain ⟨read', hread', hcheck'⟩ := hk'.value
  obtain rfl := Except.ok.inj (hread'.symm.trans hread)
  exact (Expr.bare_of_check hcheck').trans (Expr.bare_of_check hcheck).symm

lemma symm (h : Kernel.Alike l m k k') : Kernel.Alike m l k' k := by
  obtain ⟨spec, hk, hk'⟩ := h
  exact ⟨spec, hk', hk⟩

/-- Both kernels have the same weights. -/
lemma entry_eq (h : Kernel.Alike l m k k') (x y : Nat) : k'.entry x y = k.entry x y := by
  rw [Kernel.entry, Kernel.entry, h.matrix_eq]

/-- Both kernels read the same places of a board. -/
lemma visits_eq (h : Kernel.Alike l m k k') (width height : Nat) (x y : Int) :
    k'.visits width height x y = k.visits width height x y := by
  obtain ⟨hwidth, hheight⟩ := h.size_eq
  have hfrom : ∀ places, k'.visitsFrom width height x y places
      = k.visitsFrom width height x y places := by
    intro places
    induction places with
    | nil => rfl
    | cons p places ih =>
        simp only [Kernel.visitsFrom, Kernel.offsetX, Kernel.offsetY, hwidth, hheight,
          h.overflow_eq, ih]
  rw [Kernel.visits, Kernel.visits, hfrom, Kernel.places, Kernel.places, hwidth, hheight]

/-- The value functions have the same code. -/
lemma term (h : Kernel.Alike l m k k') (hlm : l.Alike m) (hks : ks.SameNames ks')
    {t : Shader.Term} (ht : k.value.toTerm ks = .ok t) : k'.value.toTerm ks' = .ok t := by
  obtain ⟨spec, hk, hk'⟩ := h
  obtain ⟨read, hread, hcheck⟩ := hk.value
  obtain ⟨read', hread', hcheck'⟩ := hk'.value
  obtain rfl := Except.ok.inj (hread'.symm.trans hread)
  obtain ⟨value, hvalue, halike⟩ := Expr.exists_check hlm hks (cellScope_alike l m) id
    ((Expr.map_id read').symm ▸ hcheck)
  obtain rfl := Except.ok.inj (hvalue.symm.trans hcheck')
  exact halike.term t ht

end Kernel.Alike

/-! ## Sets of kernels

Kernels are paired up by a permutation of the one list of them.  Names are not repeated, so looking
a kernel up by its name finds partners.
-/

lemma CountType.kind_type_ne (t : CountType) : t.type.kind ≠ .struct := by
  cases t <;> decide

namespace KernelSet

/-- The kernels of one set are those of the other in another order. -/
def Alike (l m : Layout) (ks ks' : KernelSet) : Prop :=
  ∃ kernels : List Kernel, kernels.Perm ks.kernels ∧
    List.Forall₂ (Kernel.Alike l m) kernels ks'.kernels

/-- **Neighbour counts can be declared in any order**, and over any layout of the same fields. -/
theorem compile_perm (hlm : l.Alike m) (h : specs'.Perm specs)
    (hks : KernelSet.compile specs l.cellType = .ok ks) :
    ∃ ks', KernelSet.compile specs' m.cellType = .ok ks' := by
  obtain ⟨hall, -, hnodup, -⟩ := compile_eq_ok_iff.mp hks
  refine exists_compile ?_
    ((h.map KernelSpec.name).nodup_iff.mpr ((names_of_declares hall).symm ▸ hnodup))
  intro spec hspec
  obtain ⟨k, -, hk⟩ := exists_left_of_forall₂ hall.flip spec (h.subset hspec)
  exact hk.exists_alike hlm

/-- Sets compiled from the same declarations in another order are alike. -/
theorem alike_of_compile (h : specs'.Perm specs)
    (hks : KernelSet.compile specs l.cellType = .ok ks)
    (hks' : KernelSet.compile specs' m.cellType = .ok ks') : ks.Alike l m ks' := by
  obtain ⟨hall, -⟩ := compile_eq_ok_iff.mp hks
  obtain ⟨hall', -⟩ := compile_eq_ok_iff.mp hks'
  obtain ⟨kernels, hkernels, hperm⟩ := List.perm_comp_forall₂ h hall
  exact ⟨kernels, hperm, forall₂_join hkernels hall'⟩

/-- A name is found if a kernel has it. -/
lemma isSome_find? (ks : KernelSet) (name : String) :
    (ks.find? name).isSome ↔ name ∈ ks.kernels.map Kernel.name := by
  simp [KernelSet.find?, List.find?_isSome]

namespace Alike

lemma symm (h : ks.Alike l m ks') : ks'.Alike m l ks := by
  obtain ⟨kernels, hperm, hall⟩ := h
  obtain ⟨kernels', hall', hperm'⟩ := List.perm_comp_forall₂ hperm.symm hall
  exact ⟨kernels', hperm', (hall'.imp fun _ _ hk => hk.symm).flip⟩

/-- What alike kernels have in common is the same in both sets, up to the order. -/
lemma map_perm {β : Type} {f : Kernel → β} (h : ks.Alike l m ks')
    (hf : ∀ k k', Kernel.Alike l m k k' → f k = f k') :
    (ks'.kernels.map f).Perm (ks.kernels.map f) := by
  obtain ⟨kernels, hperm, hall⟩ := h
  rw [← map_eq_of_forall₂ hall hf]
  exact hperm.map f

lemma exists_left (h : ks.Alike l m ks') {k' : Kernel} (hk' : k' ∈ ks'.kernels) :
    ∃ k ∈ ks.kernels, Kernel.Alike l m k k' := by
  obtain ⟨kernels, hperm, hall⟩ := h
  obtain ⟨k, hk, halike⟩ := exists_left_of_forall₂ hall k' hk'
  exact ⟨k, hperm.subset hk, halike⟩

lemma sameNames (h : ks.Alike l m ks') : ks.SameNames ks' := by
  intro name
  rw [Bool.eq_iff_iff, isSome_find?, isSome_find?]
  exact (h.map_perm fun _ _ hk => hk.name_eq.symm).mem_iff

/-- The scopes that rules start in bind the same names. -/
theorem rootScope (h : ks.Alike l m ks') (hks : ks.Compiled l.cellType) :
    (rootScope l ks).Alike l m (rootScope m ks') := by
  have hperm := h.map_perm (f := Kernel.binding) (by
    intro k k' hk
    rw [Kernel.binding, Kernel.binding, hk.name_eq, hk.result_eq])
  refine Scope.alike_of_builtins ?_ (fun b hb => (mem_rootScope hb).1)
    (fun b hb => (mem_rootScope hb).1) ?_
  · simpa [rootScope_eq] using hperm.length_eq
  · intro name
    have hnodup : ((ks.kernels.map Kernel.binding).reverse.map Binding.name).Nodup := by
      rw [List.map_reverse, List.nodup_reverse, List.map_map]
      exact hks.names_nodup
    have hcounts := find?_perm
      (((List.reverse_perm _).trans hperm.symm).trans (List.reverse_perm _).symm) hnodup name
    simp only [rootScope_eq, List.find?_append, ← hcounts]
    -- the counts stand in front of the two cells, in which order does not matter
    cases hfind : (ks.kernels.map Kernel.binding).reverse.find? (fun b => b.name = name) with
    | some b =>
        have hmem := List.mem_reverse.mp (List.mem_of_find?_eq_some hfind)
        obtain ⟨k, -, rfl⟩ := List.mem_map.mp hmem
        exact .inr ⟨_, _, rfl, rfl, .same k.result.kind_type_ne⟩
    | none =>
        by_cases hprev : prevName = name
        · exact .inr ⟨_, _, by simp [hprev]; rfl, by simp [hprev]; rfl, .cell⟩
        · by_cases hcell : cellName = name
          · exact .inr ⟨_, _, by simp [hprev, hcell]; rfl, by simp [hprev, hcell]; rfl, .cell⟩
          · exact .inl ⟨by simp [hprev, hcell], by simp [hprev, hcell]⟩

end Alike

end KernelSet

/-! ## Shaders

The code of a rule mentions kernels and fields by name, and so it is the same code; only the
functions in front of it differ.
-/

namespace Shader

/-- Kernels whose value functions have code have counting functions. -/
lemma exists_countFunctions {kernels : List Kernel}
    (h : ∀ k ∈ kernels, ∃ value, k.value.toTerm ks = .ok value) :
    ∃ functions, countFunctions ks kernels = .ok functions := by
  induction kernels with
  | nil => exact ⟨[], rfl⟩
  | cons k kernels ih =>
      rw [List.forall_mem_cons] at h
      obtain ⟨⟨value, hvalue⟩, hmore⟩ := h
      obtain ⟨functions, hfunctions⟩ := ih hmore
      refine ⟨countFunction k value :: functions, ?_⟩
      simp only [countFunctions, hvalue, hfunctions, ok_bind, pure_eq_ok]

/-- **A rule with the same code over alike kernels has a shader too.** -/
theorem exists_generate (hlm : l.Alike m) (hks : ks.Alike l m ks') {p p' : Program Note}
    (hp : ∀ cs, Stmt.toCodes ks p.body = .ok cs → Stmt.toCodes ks' p'.body = .ok cs)
    {shader : Shader} (h : generate l ks p = .ok shader) :
    ∃ shader', generate m ks' p' = .ok shader' := by
  simp only [generate, bind_eq_ok] at h ⊢
  obtain ⟨functions, hfunctions, rule, hrule, -⟩ := h
  have hvalues : ∀ k' ∈ ks'.kernels, ∃ value, k'.value.toTerm ks' = .ok value := by
    intro k' hk'
    obtain ⟨k, hk, halike⟩ := hks.exists_left hk'
    obtain ⟨value, hvalue, -⟩ := exists_countFunction hfunctions hk
    exact ⟨value, halike.term hlm hks.sameNames hvalue⟩
  obtain ⟨functions', hfunctions'⟩ := exists_countFunctions hvalues
  exact ⟨_, functions', hfunctions', rule, hp rule hrule, rfl⟩

end Shader

end Cellular
