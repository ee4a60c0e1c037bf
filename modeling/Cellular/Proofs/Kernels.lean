import Cellular.Kernel
import Cellular.Proofs.Rule.WellTyped
import Cellular.Proofs.Source.Wording
import Mathlib.Data.List.Forall2
import Mathlib.Tactic.Ring

/-!
# Compiled kernels

What the check of the declared kernels leaves behind.

A declaration is text: a name, a matrix, the source of a value function, and two words for the type
of the count and for the policy at the edges.  Its check turns each of them into data or refuses it
with a path.  `KernelSpec.Declares` is the same relation without the order of the checks and without
the errors, so that a theorem can go from declarations to kernels and back; the checks succeed
exactly where it holds.

* `Kernel.Checked` is what holds of one kernel: its name is a name that hides neither cell, and its
  value function is well-typed where only a cell is visible.
* `KernelSet.Compiled` is what holds of the set: names are distinct, and the index of a kernel is
  its place in the list.
* `KernelSpec.Declares` relates a declaration to its kernel; `KernelSet.compile_eq_ok_iff` says in
  terms of it when declared kernels compile, and to what.
* `KernelSet.Compiled.weight?_eq`: the shared table holds the weights of every kernel.

Kernels are checked one after the other, each with the names that came before it.  The theorems
about lists of declarations are inductions on this list with the next index and the names seen so
far left free.
-/

namespace Cellular

/-- What stands on the right of a paired list has a partner on the left. -/
lemma exists_left_of_forall₂ {α β : Type} {R : α → β → Prop} {as : List α} {bs : List β}
    (h : List.Forall₂ R as bs) : ∀ b ∈ bs, ∃ a ∈ as, R a b := by
  induction h with
  | nil => simp
  | @cons a b as bs hab _ ih =>
      rw [List.forall_mem_cons]
      refine ⟨⟨a, List.mem_cons_self, hab⟩, ?_⟩
      intro b' hb'
      obtain ⟨a', ha', hab'⟩ := ih b' hb'
      exact ⟨a', List.mem_cons_of_mem _ ha', hab'⟩

/-- Lists that share what they are paired with are paired with each other. -/
lemma forall₂_join {α β γ : Type} {R : α → β → Prop} {S : α → γ → Prop} {as : List α} {bs : List β}
    {cs : List γ} (h : List.Forall₂ R as bs) (h' : List.Forall₂ S as cs) :
    List.Forall₂ (fun b c => ∃ a, R a b ∧ S a c) bs cs := by
  induction h generalizing cs with
  | nil =>
      cases h'
      exact .nil
  | @cons a b as bs hab _ ih =>
      cases h' with
      | cons hac hmore => exact .cons ⟨a, hab, hac⟩ (ih hmore)

/-- Paired lists map to the same list if pairs map to the same. -/
lemma map_eq_of_forall₂ {α β γ : Type} {R : α → β → Prop} {f : α → γ} {g : β → γ} {as : List α}
    {bs : List β} (h : List.Forall₂ R as bs) (hfg : ∀ a b, R a b → f a = g b) :
    as.map f = bs.map g := by
  rw [← List.forall₂_eq_eq_eq, List.forall₂_map_left_iff, List.forall₂_map_right_iff]
  exact h.imp hfg

/-- A kernel that passed its checks, over cells of type `cell`. -/
structure Kernel.Checked (cell : Ty) (k : Kernel) : Prop where
  named : isIdentifier k.name
  name_ne_cell : k.name ≠ cellName
  name_ne_prev : k.name ≠ prevName
  typed : k.value.WellTyped (Scope.builtin [] cellName cell)
  scalar : k.value.type.isScalar
  spelled : k.value.Spelled
  worded : k.value.Worded

/-- A set of kernels that passed its checks, over cells of type `cell`. -/
structure KernelSet.Compiled (cell : Ty) (ks : KernelSet) : Prop where
  checked : ∀ k ∈ ks.kernels, k.Checked cell
  names_nodup : (ks.kernels.map Kernel.name).Nodup
  index : ks.kernels.map Kernel.index = List.range ks.kernels.length
  table : ks = KernelSet.ofKernels ks.kernels

/-! ## Checks

A kernel passes its check field by field.  The path that a check is given is used in its error only,
which is why `Declares` asks for a path under which the matrix passes and any other would do.
-/

namespace KernelSpec

variable {scope : Scope}

/-- A value function passes its check if it is read as a well-typed expression of a scalar. -/
lemma checkValue_eq_ok_iff {path source : String} {e : Expr Note} :
    checkValue path scope source = .ok e ↔
      ∃ read, Expr.parse source = .ok read ∧ read.check scope = .ok e ∧ e.type.isScalar := by
  simp only [checkValue, bind_eq_ok, mapError_eq_ok]
  constructor
  · rintro ⟨read, hread, e', hcheck, h⟩
    split_ifs at h with hscalar
    cases h
    exact ⟨read, hread, hcheck, hscalar⟩
  · rintro ⟨read, hread, hcheck, hscalar⟩
    exact ⟨read, hread, e, hcheck, if_pos hscalar⟩

/-- A kernel is what a declaration says, whatever number it gets. -/
structure Declares (scope : Scope) (s : KernelSpec) (k : Kernel) : Prop where
  name : k.name = s.name
  named : isIdentifier s.name
  name_ne_cell : s.name ≠ cellName
  name_ne_prev : s.name ≠ prevName
  matrix : k.matrix = s.matrix
  size : ∃ path, checkMatrix path s.matrix = .ok (k.height, k.width)
  result : CountType.ofName? s.type = some k.result
  overflow : Overflow.ofName? s.overflow = some k.overflow
  value : ∃ read, Expr.parse s.valueFn = .ok read ∧ read.check scope = .ok k.value
  scalar : k.value.type.isScalar

/-- The path of a matrix is in its errors only. -/
lemma checkMatrix_path {path : String} {matrix : List (List Float)} {size : Nat × Nat}
    (h : checkMatrix path matrix = .ok size) (path' : String) :
    checkMatrix path' matrix = .ok size := by
  rw [checkMatrix] at h ⊢
  split_ifs at h ⊢
  exact h

/-- **A kernel passes its check exactly as it is declared**, with the number that it is given. -/
theorem check_eq_ok_iff {index : Nat} {s : KernelSpec} {k : Kernel} :
    s.check index scope = .ok k ↔ s.Declares scope k ∧ k.index = index := by
  rw [KernelSpec.check]
  simp only
  constructor
  · intro h
    split_ifs at h with hident hreserved
    simp only [bind_eq_ok] at h
    obtain ⟨⟨height, width⟩, hsize, h⟩ := h
    split at h
    · cases h
    · rename_i result hresult
      split at h
      · cases h
      · rename_i overflow hoverflow
        simp only [bind_eq_ok, pure_eq_ok] at h
        obtain ⟨value, hvalue, rfl⟩ := h
        simp only [Bool.or_eq_true, decide_eq_true_eq, not_or] at hreserved
        obtain ⟨read, hread, hcheck, hscalar⟩ := checkValue_eq_ok_iff.mp hvalue
        exact ⟨⟨rfl, by simpa using hident, hreserved.1, hreserved.2, rfl, ⟨_, hsize⟩, hresult,
          hoverflow, ⟨read, hread, hcheck⟩, hscalar⟩, rfl⟩
  · rintro ⟨⟨hname, hnamed, hcell, hprev, hmatrix, ⟨_, hsize⟩, hresult, hoverflow,
      ⟨read, hread, hcheck⟩, hscalar⟩, hindex⟩
    rw [if_neg (by simp [hnamed]), if_neg (by simp [hcell, hprev]), checkMatrix_path hsize, ok_bind]
    simp only [hresult, hoverflow, checkValue_eq_ok_iff.mpr ⟨read, hread, hcheck, hscalar⟩, ok_bind,
      pure_eq_ok]
    rw [← hname, ← hmatrix, ← hindex]

/-- A declared kernel is fit for use: its value function is well-typed, and spelled in words. -/
lemma Declares.checked {cell : Ty} {s : KernelSpec} {k : Kernel}
    (h : s.Declares (Scope.builtin [] cellName cell) k) : k.Checked cell := by
  obtain ⟨read, hread, hcheck⟩ := h.value
  have hspelled : (k.value.map Note.pos).Spelled ∧ (k.value.map Note.pos).Worded := by
    rw [Expr.map_pos_of_check hcheck]
    exact ⟨Expr.spelled_of_parse hread, Expr.worded_of_parse hread⟩
  exact ⟨h.name ▸ h.named, h.name ▸ h.name_ne_cell, h.name ▸ h.name_ne_prev,
    Expr.wellTyped_of_check hcheck, h.scalar, (Expr.spelled_map _ _).mp hspelled.1,
    (Expr.worded_map _ _).mp hspelled.2⟩

/-- **Kernels pass their checks exactly if each one does, they are numbered from `index` on, and
their names repeat neither each other nor the names seen before.** -/
theorem checkAll_eq_ok_iff {specs : List KernelSpec} :
    ∀ {index : Nat} {seen : List String} {ks : List Kernel},
      checkAll scope index seen specs = .ok ks ↔
        List.Forall₂ (Declares scope) specs ks ∧ ks.map Kernel.index = List.range' index ks.length ∧
          (ks.map Kernel.name).Nodup ∧ ∀ k ∈ ks, k.name ∉ seen := by
  induction specs with
  | nil =>
      intro index seen ks
      simp only [checkAll, List.forall₂_nil_left_iff]
      constructor
      · rintro ⟨⟩
        simp
      · rintro ⟨rfl, -⟩
        rfl
  | cons s specs ih =>
      intro index seen ks
      simp only [checkAll, bind_eq_ok, check_eq_ok_iff]
      constructor
      · rintro ⟨k, ⟨hk, hindex⟩, h⟩
        split_ifs at h with hseen
        simp only [bind_eq_ok, pure_eq_ok] at h
        obtain ⟨more, hmore, rfl⟩ := h
        obtain ⟨hall, hindices, hnodup, hfresh⟩ := ih.mp hmore
        simp only [List.mem_cons, not_or] at hfresh
        refine ⟨.cons hk hall, ?_, ?_, ?_⟩
        · rw [List.map_cons, hindices, hindex, List.length_cons, List.range'_succ]
        · rw [List.map_cons, List.nodup_cons]
          refine ⟨?_, hnodup⟩
          intro hmem
          obtain ⟨k', hk', hname⟩ := List.mem_map.mp hmem
          exact (hfresh k' hk').1 hname
        · rw [List.forall_mem_cons]
          exact ⟨hseen, fun k' hk' => (hfresh k' hk').2⟩
      · rintro ⟨hall, hindices, hnodup, hfresh⟩
        cases hall with
        | @cons _ k _ more hk hall =>
            rw [List.map_cons, List.length_cons, List.range'_succ, List.cons.injEq] at hindices
            rw [List.map_cons, List.nodup_cons] at hnodup
            rw [List.forall_mem_cons] at hfresh
            refine ⟨k, ⟨hk, hindices.1⟩, ?_⟩
            rw [if_neg hfresh.1, bind_eq_ok]
            refine ⟨more, ih.mpr ⟨hall, hindices.2, hnodup.2, ?_⟩, rfl⟩
            intro k' hk' hmem
            rcases List.mem_cons.mp hmem with hname | hmem
            · exact hnodup.1 (hname ▸ List.mem_map_of_mem hk')
            · exact hfresh.2 k' hk' hmem

end KernelSpec

namespace KernelSet

/-- **Compiled kernels are as declared**, in the order of their declarations. -/
theorem compile_eq_ok_iff {specs : List KernelSpec} {cell : Ty} {ks : KernelSet} :
    KernelSet.compile specs cell = .ok ks ↔
      List.Forall₂ (KernelSpec.Declares (Scope.builtin [] cellName cell)) specs ks.kernels ∧
        ks.kernels.map Kernel.index = List.range ks.kernels.length ∧
        (ks.kernels.map Kernel.name).Nodup ∧ ks = ofKernels ks.kernels := by
  simp only [KernelSet.compile, bind_eq_ok, pure_eq_ok, KernelSpec.checkAll_eq_ok_iff,
    List.range_eq_range']
  constructor
  · rintro ⟨kernels, ⟨hall, hindices, hnodup, -⟩, rfl⟩
    exact ⟨hall, hindices, hnodup, rfl⟩
  · rintro ⟨hall, hindices, hnodup, htable⟩
    exact ⟨ks.kernels, ⟨hall, hindices, hnodup, by simp⟩, htable.symm⟩

/-- Kernels have the names of their declarations. -/
lemma names_of_declares {scope : Scope} {specs : List KernelSpec} {kernels : List Kernel}
    (h : List.Forall₂ (KernelSpec.Declares scope) specs kernels) :
    specs.map KernelSpec.name = kernels.map Kernel.name :=
  map_eq_of_forall₂ h fun _ _ hk => hk.name.symm

/-- Declarations that each declare a kernel declare kernels with consecutive numbers. -/
lemma exists_declared {scope : Scope} {specs : List KernelSpec}
    (h : ∀ s ∈ specs, ∃ k, s.Declares scope k) :
    ∀ index, ∃ kernels, List.Forall₂ (KernelSpec.Declares scope) specs kernels ∧
      kernels.map Kernel.index = List.range' index kernels.length := by
  induction specs with
  | nil => exact fun index => ⟨[], .nil, rfl⟩
  | cons s specs ih =>
      intro index
      rw [List.forall_mem_cons] at h
      obtain ⟨⟨k, hk⟩, hmore⟩ := h
      obtain ⟨kernels, hkernels, hindices⟩ := ih hmore (index + 1)
      refine ⟨{ k with index } :: kernels, .cons ?_ hkernels, ?_⟩
      · exact ⟨hk.name, hk.named, hk.name_ne_cell, hk.name_ne_prev, hk.matrix, hk.size, hk.result,
          hk.overflow, hk.value, hk.scalar⟩
      · rw [List.map_cons, hindices, List.length_cons, List.range'_succ]

/-- **Declarations compile if each one declares a kernel and no name is declared twice.** -/
theorem exists_compile {specs : List KernelSpec} {cell : Ty}
    (h : ∀ s ∈ specs, ∃ k, s.Declares (Scope.builtin [] cellName cell) k)
    (hnodup : (specs.map KernelSpec.name).Nodup) : ∃ ks, KernelSet.compile specs cell = .ok ks := by
  obtain ⟨kernels, hkernels, hindices⟩ := exists_declared h 0
  refine ⟨ofKernels kernels, compile_eq_ok_iff.mpr ⟨hkernels, ?_, ?_, rfl⟩⟩
  · exact hindices.trans List.range_eq_range'.symm
  · exact names_of_declares hkernels ▸ hnodup

/-- **Compiled kernels passed their checks.** -/
theorem compiled_of_compile {specs : List KernelSpec} {cell : Ty} {ks : KernelSet}
    (h : KernelSet.compile specs cell = .ok ks) : ks.Compiled cell := by
  obtain ⟨hall, hindices, hnodup, htable⟩ := compile_eq_ok_iff.mp h
  refine ⟨?_, hnodup, hindices, htable⟩
  intro k hk
  obtain ⟨s, -, hs⟩ := exists_left_of_forall₂ hall k hk
  exact hs.checked

variable {cell : Ty} {ks : KernelSet}

/-! ## The weight table

All kernels share a table of layers, each as large as the largest kernel.  What is looked up in it
for a kernel must be the entry of the kernel's own matrix, and zero on the rest of the layer.  The
table is built as one list, layer by layer and row by row; a place in it is found by
`getElem?_flatMap`, once for the layers and once for the rows.
-/

/-- The largest measure is at least the one that the search starts with, and no kernel has a larger
one. -/
lemma le_foldl_max (measure : Kernel → Nat) (kernels : List Kernel) :
    ∀ start, start ≤ kernels.foldl (fun n k => max n (measure k)) start ∧
      ∀ k ∈ kernels, measure k ≤ kernels.foldl (fun n k => max n (measure k)) start := by
  induction kernels with
  | nil => simp
  | cons k kernels ih =>
      intro start
      obtain ⟨hstart, hall⟩ := ih (max start (measure k))
      rw [List.foldl_cons]
      refine ⟨(Nat.le_max_left _ _).trans hstart, ?_⟩
      intro k' hk'
      rcases List.mem_cons.mp hk' with rfl | hk'
      · exact (Nat.le_max_right _ _).trans hstart
      · exact hall k' hk'

/-- Every kernel fits into a layer of the table. -/
lemma Compiled.size_le (h : ks.Compiled cell) {k : Kernel} (hk : k ∈ ks.kernels) :
    k.width ≤ ks.width ∧ k.height ≤ ks.height := by
  rw [h.table]
  exact ⟨(le_foldl_max Kernel.width ks.kernels 0).2 k hk,
    (le_foldl_max Kernel.height ks.kernels 0).2 k hk⟩

/-- A place in one of several blocks of the same length. -/
lemma getElem?_flatMap {α β : Type} {f : α → List β} {length : Nat} {as : List α}
    (h : ∀ a ∈ as, (f a).length = length) {j : Nat} (hj : j < length) (i : Nat) :
    (as.flatMap f)[length * i + j]? = as[i]?.bind fun a => (f a)[j]? := by
  induction as generalizing i with
  | nil => simp
  | cons a as ih =>
      obtain ⟨ha, hmore⟩ := List.forall_mem_cons.mp h
      rw [List.flatMap_cons]
      cases i with
      | zero =>
          rw [List.getElem?_append_left (by omega)]
          simp
      | succ i =>
          rw [List.getElem?_append_right (by rw [ha, Nat.mul_succ]; omega), ha,
            show length * (i + 1) + j - length = length * i + j by rw [Nat.mul_succ]; omega, ih hmore]
          rfl

/-- The layer of a kernel is its place in the list. -/
lemma Compiled.getElem?_index (h : ks.Compiled cell) {k : Kernel} (hk : k ∈ ks.kernels) :
    ks.kernels[k.index]? = some k := by
  obtain ⟨i, hi, rfl⟩ := List.mem_iff_getElem.mp hk
  have hindex := congrArg (fun indices => indices[i]?) h.index
  simp only [List.getElem?_map, List.getElem?_eq_getElem hi, List.getElem?_range hi,
    Option.map_some, Option.some.injEq] at hindex
  rw [hindex, List.getElem?_eq_getElem hi]

/-- The table has one layer per kernel. -/
lemma length_tableOf (width height : Nat) (kernels : List Kernel) :
    (tableOf width height kernels).length = width * height * kernels.length := by
  simp [tableOf, List.length_flatMap, List.map_const', Nat.mul_comm]

lemma Compiled.weights_eq (h : ks.Compiled cell) :
    ks.weights = (tableOf ks.width ks.height ks.kernels).toArray := by
  calc ks.weights = (ofKernels ks.kernels).weights := congrArg KernelSet.weights h.table
    _ = (tableOf (ofKernels ks.kernels).width (ofKernels ks.kernels).height
          ks.kernels).toArray := rfl
    _ = (tableOf ks.width ks.height ks.kernels).toArray := by rw [← h.table]

/-- **The weight that the table has for a place of a layer is the one of the matrix**, or none where
the matrix has no such place. -/
theorem Compiled.weight?_of_lt (h : ks.Compiled cell) {k : Kernel} (hk : k ∈ ks.kernels) {x y : Nat}
    (hx : x < ks.width) (hy : y < ks.height) : ks.weight? k.index x y = some (k.entry x y) := by
  have hplace : ks.width * y + x < ks.width * ks.height := by
    calc ks.width * y + x < ks.width * y + ks.width := by omega
      _ = ks.width * (y + 1) := by ring
      _ ≤ ks.width * ks.height := Nat.mul_le_mul_left _ (by omega)
  rw [weight?, h.weights_eq, List.getElem?_toArray, tableOf, Nat.add_assoc,
    getElem?_flatMap (fun _ _ => by simp [List.length_flatMap, List.map_const', Nat.mul_comm])
      hplace, h.getElem?_index hk, Option.bind_some, getElem?_flatMap (fun _ _ => by simp) hx,
    List.getElem?_range hy, Option.bind_some, List.getElem?_map, List.getElem?_range hx,
    Option.map_some]

/-- Every place of a kernel is one of its layer. -/
theorem Compiled.weight?_eq (h : ks.Compiled cell) {k : Kernel} (hk : k ∈ ks.kernels) {x y : Nat}
    (hx : x < k.width) (hy : y < k.height) : ks.weight? k.index x y = some (k.entry x y) := by
  obtain ⟨hwidth, hheight⟩ := h.size_le hk
  exact h.weight?_of_lt hk (hx.trans_le hwidth) (hy.trans_le hheight)

end KernelSet

/-! ## The names that a rule sees

A rule starts in a scope that holds the two cells and a read-only name for every kernel, the last
kernel innermost.
-/

/-- What a rule sees of a kernel. -/
def Kernel.binding (k : Kernel) : Binding := ⟨k.name, k.result.type, false⟩

/-- The root scope: the kernels, the last one innermost, then the cell as it was and the cell. -/
lemma rootScope_eq (l : Layout) (ks : KernelSet) :
    rootScope l ks = (ks.kernels.map Kernel.binding).reverse ++
      [⟨prevName, l.cellType, false⟩, ⟨cellName, l.cellType, false⟩] := by
  rw [rootScope, KernelSet.scope]
  generalize hparent : (Scope.builtin [] cellName l.cellType).builtin prevName l.cellType = parent
  rw [show [⟨prevName, l.cellType, false⟩, ⟨cellName, l.cellType, false⟩] = parent from hparent]
  clear hparent
  induction ks.kernels generalizing parent with
  | nil => rfl
  | cons k kernels ih =>
      rw [List.foldl_cons, ih, List.map_cons, List.reverse_cons, List.append_assoc]
      rfl

/-- A name of the root scope is read-only: one of the two cells, or a kernel. -/
lemma mem_rootScope {l : Layout} {ks : KernelSet} {b : Binding} (h : b ∈ rootScope l ks) :
    b.assignable = false ∧
      (((b.name = cellName ∨ b.name = prevName) ∧ b.type = l.cellType) ∨
        ∃ k ∈ ks.kernels, b.name = k.name ∧ b.type = k.result.type) := by
  rw [rootScope_eq] at h
  simp only [List.mem_append, List.mem_reverse, List.mem_map, List.mem_cons, List.not_mem_nil,
    or_false] at h
  rcases h with ⟨k, hk, rfl⟩ | rfl | rfl
  · exact ⟨rfl, .inr ⟨k, hk, rfl, rfl⟩⟩
  · exact ⟨rfl, .inl ⟨.inr rfl, rfl⟩⟩
  · exact ⟨rfl, .inl ⟨.inl rfl, rfl⟩⟩

end Cellular
