import Cellular.Proofs.Kernels
import Cellular.Proofs.Success

/-!
# The weight table

All kernels share one table of weights, and each of them stands in it where the sizes of all of them
put it.

* `KernelSet.slot` is the place of a weight; no two weights of the table share one
  (`KernelSet.slot_inj`), and every place is one of them (`KernelSet.exists_slot`).
* `KernelSet.written` is the table as it is filled: zeros, and over them the matrices, one weight
  after the other.
* `KernelSet.Tabulates` says what the table holds, and `KernelSet.compile_tabulates` that it holds
  this for all declarations, and for each kernel whatever the others are.

The table is looked at from two sides.  It is defined layer by layer, each of them padded with
zeros, which is the form that look-ups are proved for.  It can also be seen as storage that starts
with zeros and is then written to, one weight after the other; in this form it has to be shown that
writes do not overlap and that none falls behind the end.  `Compiled.weights_eq_written` says that
the two are one table.  That a kernel has the same weights in every table then follows without a
look at the other kernels, since what the table holds for a kernel is said by its own matrix.
-/

namespace Cellular

/-! ## Matrices

A matrix is a list of rows, and the check only counts: there is a row, and all rows have the length
of the first.  These lemmas say what this gives for single entries, inside the rectangle and
outside.
-/

/-- The matrix of a kernel has the size of the kernel. -/
structure Kernel.Shaped (k : Kernel) : Prop where
  rows : k.matrix.length = k.height
  columns : ∀ row ∈ k.matrix, row.length = k.width

/-- A matrix that passes its check is a rectangle. -/
lemma KernelSpec.rectangle_of_checkMatrix {path : String} {matrix : List (List Float)}
    {height width : Nat} (h : checkMatrix path matrix = .ok (height, width)) :
    matrix.length = height ∧ ∀ row ∈ matrix, row.length = width := by
  rw [checkMatrix] at h
  split_ifs at h with hempty hragged
  cases h
  refine ⟨rfl, ?_⟩
  intro row hrow
  by_contra hwidth
  exact hragged (List.any_eq_true.mpr ⟨row, hrow, by simpa using hwidth⟩)

lemma KernelSpec.Declares.shaped {scope : Scope} {s : KernelSpec} {k : Kernel}
    (h : s.Declares scope k) : k.Shaped := by
  obtain ⟨path, hsize⟩ := h.size
  obtain ⟨hrows, hcolumns⟩ := rectangle_of_checkMatrix hsize
  exact ⟨h.matrix ▸ hrows, h.matrix ▸ hcolumns⟩

namespace Kernel

variable {k : Kernel}

lemma entry_of_getElem? {x y : Nat} {row : List Float} {w : Float} (hrow : k.matrix[y]? = some row)
    (hw : row[x]? = some w) : k.entry x y = Number.narrow w := by
  simp only [entry, hrow, hw]

/-- Inside the size of a kernel stands a weight. -/
lemma Shaped.exists_getElem? (h : k.Shaped) {x y : Nat} (hx : x < k.width) (hy : y < k.height) :
    ∃ row w, k.matrix[y]? = some row ∧ row[x]? = some w := by
  have hrow : y < k.matrix.length := h.rows ▸ hy
  have hw : x < k.matrix[y].length := (h.columns _ (List.getElem_mem hrow)).symm ▸ hx
  exact ⟨_, _, List.getElem?_eq_getElem hrow, List.getElem?_eq_getElem hw⟩

/-- A weight stands inside the size of its kernel. -/
lemma Shaped.lt_of_getElem? (h : k.Shaped) {x y : Nat} {row : List Float} {w : Float}
    (hrow : k.matrix[y]? = some row) (hw : row[x]? = some w) : x < k.width ∧ y < k.height := by
  obtain ⟨hx, -⟩ := List.getElem?_eq_some_iff.mp hw
  obtain ⟨hy, -⟩ := List.getElem?_eq_some_iff.mp hrow
  exact ⟨h.columns row (List.mem_of_getElem? hrow) ▸ hx, h.rows ▸ hy⟩

/-- Outside the size of a kernel all weights are zero. -/
lemma Shaped.entry_eq_zero (h : k.Shaped) {x y : Nat} (hout : k.width ≤ x ∨ k.height ≤ y) :
    k.entry x y = 0 := by
  cases hrow : k.matrix[y]? with
  | none => simp only [entry, hrow]
  | some row =>
      cases hw : row[x]? with
      | none => simp only [entry, hrow, hw]
      | some w =>
          obtain ⟨hx, hy⟩ := h.lt_of_getElem? hrow hw
          omega

end Kernel

namespace KernelSet

/-! ## Slots

A slot is a number in mixed radix: the layer, the row and the column, of which row and column are
smaller than the sizes of the table.  Its digits determine it and are determined by it.
-/

/-- The place in the table of column `x`, row `y` of layer `k`. -/
def slot (ks : KernelSet) (k x y : Nat) : Nat := ks.width * ks.height * k + ks.width * y + x

lemma weight?_eq_getElem? (ks : KernelSet) (k x y : Nat) :
    ks.weight? k x y = ks.weights[ks.slot k x y]? := rfl

/-- The table is a stack of rows, whatever layers they belong to. -/
lemma slot_eq (ks : KernelSet) (k x y : Nat) :
    ks.slot k x y = ks.width * (ks.height * k + y) + x := by
  rw [slot, Nat.mul_add, Nat.mul_assoc]

/-- **No two weights share a slot.** -/
theorem slot_inj {ks : KernelSet} {k k' x x' y y' : Nat} (hx : x < ks.width) (hx' : x' < ks.width)
    (hy : y < ks.height) (hy' : y' < ks.height) (h : ks.slot k x y = ks.slot k' x' y') :
    k = k' ∧ x = x' ∧ y = y' := by
  rw [slot_eq, slot_eq] at h
  have hcolumn : x = x' := by simpa [Nat.mod_eq_of_lt, hx, hx'] using congrArg (· % ks.width) h
  have hrows : ks.height * k + y = ks.height * k' + y' := by
    subst hcolumn
    exact Nat.eq_of_mul_eq_mul_left (Nat.zero_lt_of_lt hx) (Nat.add_right_cancel h)
  have hrow : y = y' := by simpa [Nat.mod_eq_of_lt, hy, hy'] using congrArg (· % ks.height) hrows
  subst hrow
  exact ⟨Nat.eq_of_mul_eq_mul_left (Nat.zero_lt_of_lt hy) (Nat.add_right_cancel hrows), hcolumn, rfl⟩

/-- The slots of the first `n` layers are the first places. -/
lemma slot_lt {ks : KernelSet} {n k x y : Nat} (hk : k < n) (hx : x < ks.width)
    (hy : y < ks.height) : ks.slot k x y < ks.width * ks.height * n := by
  have hrow : ks.height * k + y < ks.height * n := by
    calc ks.height * k + y < ks.height * (k + 1) := by rw [Nat.mul_succ]; omega
      _ ≤ ks.height * n := Nat.mul_le_mul_left _ hk
  calc ks.slot k x y = ks.width * (ks.height * k + y) + x := slot_eq ..
    _ < ks.width * (ks.height * k + y + 1) := by rw [Nat.mul_succ]; omega
    _ ≤ ks.width * (ks.height * n) := Nat.mul_le_mul_left _ hrow
    _ = ks.width * ks.height * n := (Nat.mul_assoc ..).symm

/-- Every one of these places is a slot. -/
lemma exists_slot {ks : KernelSet} {n p : Nat} (hp : p < ks.width * ks.height * n) :
    ∃ k < n, ∃ x < ks.width, ∃ y < ks.height, p = ks.slot k x y := by
  have hrow : p / ks.width < n * ks.height :=
    Nat.div_lt_of_lt_mul (by rwa [Nat.mul_assoc, Nat.mul_comm ks.height] at hp)
  have hwidth : 0 < ks.width := Nat.pos_of_ne_zero fun h => by simp [h] at hp
  have hheight : 0 < ks.height := Nat.pos_of_ne_zero fun h => by simp [h] at hp
  refine ⟨p / ks.width / ks.height, Nat.div_lt_of_lt_mul (Nat.mul_comm n _ ▸ hrow), p % ks.width,
    Nat.mod_lt _ hwidth, p / ks.width % ks.height, Nat.mod_lt _ hheight, ?_⟩
  rw [slot_eq, Nat.div_add_mod, Nat.div_add_mod]

/-! ## Writing the table

A place that is written several times holds the last value.  To know what stands there in the end it
is enough that all writes to the place agree, and slots that are not shared make sure of that.
-/

/-- The writes that fill the table, each one a place and what is put there. -/
def writes (ks : KernelSet) : List (Nat × Float32) :=
  ks.kernels.flatMap fun k => k.matrix.zipIdx.flatMap fun line => line.1.zipIdx.map fun cell =>
    (ks.slot k.index cell.2 line.2, Number.narrow cell.1)

/-- The table after all writes.  A write behind its end would be lost. -/
def written (ks : KernelSet) : Array Float32 :=
  ks.writes.foldl (fun table w => table.setIfInBounds w.1 w.2)
    (Array.replicate (ks.width * ks.height * ks.kernels.length) 0)

/-- Every weight of every matrix is written, and nothing else. -/
lemma mem_writes {ks : KernelSet} {p : Nat} {v : Float32} :
    (p, v) ∈ ks.writes ↔ ∃ k ∈ ks.kernels, ∃ (x y : Nat) (row : List Float) (w : Float),
      k.matrix[y]? = some row ∧ row[x]? = some w ∧ p = ks.slot k.index x y ∧
        v = Number.narrow w := by
  simp only [writes, List.mem_flatMap, List.mem_map, Prod.exists, List.mem_zipIdx_iff_getElem?,
    Prod.mk.injEq]
  constructor
  · rintro ⟨k, hk, row, y, hrow, w, x, hw, hp, hv⟩
    exact ⟨k, hk, x, y, row, w, hrow, hw, hp.symm, hv.symm⟩
  · rintro ⟨k, hk, x, y, row, w, hrow, hw, hp, hv⟩
    exact ⟨k, hk, row, y, hrow, w, x, hw, hp.symm, hv.symm⟩

lemma size_foldl_set {α : Type} (ws : List (Nat × α)) (table : Array α) :
    (ws.foldl (fun table w => table.setIfInBounds w.1 w.2) table).size = table.size := by
  induction ws generalizing table with
  | nil => rfl
  | cons w ws ih => rw [List.foldl_cons, ih, Array.size_setIfInBounds]

/-- What is at a place in the end, if all writes to it are of one value: this value, if it is written
at all or was there before. -/
lemma getElem?_foldl_set {α : Type} {p : Nat} {v : α} {ws : List (Nat × α)} {table : Array α}
    (hp : p < table.size) (hsame : ∀ w ∈ ws, w.1 = p → w.2 = v)
    (hsome : (∃ w ∈ ws, w.1 = p) ∨ table[p]? = some v) :
    (ws.foldl (fun table w => table.setIfInBounds w.1 w.2) table)[p]? = some v := by
  induction ws generalizing table with
  | nil => simpa using hsome
  | cons w ws ih =>
      rw [List.forall_mem_cons] at hsame
      rw [List.foldl_cons]
      refine ih (by rwa [Array.size_setIfInBounds]) hsame.2 ?_
      by_cases hw : w.1 = p
      · right
        rw [← hsame.1 hw, ← hw, Array.getElem?_setIfInBounds_self, if_pos (hw ▸ hp)]
      · rw [Array.getElem?_setIfInBounds_ne hw]
        simpa [hw] using hsome

/-! ## What the table holds

`Tabulates` is what a reader of the table relies on, said without the order in which it is built.
-/

/-- What the table of the kernels declared by `specs` holds. -/
structure Tabulates (specs : List KernelSpec) (ks : KernelSet) : Prop where
  /-- There is a kernel for every declaration. -/
  length : ks.kernels.length = specs.length
  /-- A kernel is numbered by its place, and has the matrix that is declared there. -/
  declared : ∀ (i : Nat) (k : Kernel), ks.kernels[i]? = some k →
    k.index = i ∧ specs[i]?.map KernelSpec.matrix = some k.matrix
  /-- The matrix has the height and width of the kernel. -/
  shaped : ∀ k ∈ ks.kernels, k.Shaped
  width : ks.width = (ks.kernels.map Kernel.width).max?.getD 0
  height : ks.height = (ks.kernels.map Kernel.height).max?.getD 0
  size : ks.weights.size = ks.width * ks.height * ks.kernels.length
  inside : ∀ k ∈ ks.kernels, ∀ x < k.width, ∀ y < k.height, ∃ row w,
    k.matrix[y]? = some row ∧ row[x]? = some w ∧ ks.weight? k.index x y = some (Number.narrow w)
  padding : ∀ k ∈ ks.kernels, ∀ x < ks.width, ∀ y < ks.height, k.width ≤ x ∨ k.height ≤ y →
    ks.weight? k.index x y = some 0
  /-- No two weights share a slot. -/
  apart : ∀ k k', ∀ x < ks.width, ∀ x' < ks.width, ∀ y < ks.height, ∀ y' < ks.height,
    ks.slot k x y = ks.slot k' x' y' → k = k' ∧ x = x' ∧ y = y'
  /-- No write is lost. -/
  inBounds : ∀ w ∈ ks.writes, w.1 < ks.weights.size
  written : ks.weights = ks.written

variable {cell : Ty} {ks : KernelSet}

lemma Compiled.index_lt (h : ks.Compiled cell) {k : Kernel} (hk : k ∈ ks.kernels) :
    k.index < ks.kernels.length :=
  (List.getElem?_eq_some_iff.mp (h.getElem?_index hk)).1

/-- A kernel stands in its layer. -/
lemma Compiled.exists_kernel (h : ks.Compiled cell) {i : Nat} (hi : i < ks.kernels.length) :
    ∃ k ∈ ks.kernels, k.index = i := by
  have hindex : i ∈ ks.kernels.map Kernel.index := h.index ▸ List.mem_range.mpr hi
  exact List.mem_map.mp hindex

lemma Compiled.size_weights (h : ks.Compiled cell) :
    ks.weights.size = ks.width * ks.height * ks.kernels.length := by
  rw [h.weights_eq, List.size_toArray, length_tableOf]

/-- The largest measure of the kernels. -/
lemma foldl_max_eq_max? (measure : Kernel → Nat) (kernels : List Kernel) :
    kernels.foldl (fun n k => max n (measure k)) 0 = (kernels.map measure).max?.getD 0 := by
  cases kernels with
  | nil => rfl
  | cons k kernels =>
      rw [List.foldl_cons, List.map_cons, List.max?_cons', Option.getD_some, List.foldl_map,
        Nat.zero_max]

/-- Every write is to a slot of the table. -/
lemma Compiled.inBounds_writes (h : ks.Compiled cell) (hshaped : ∀ k ∈ ks.kernels, k.Shaped) :
    ∀ w ∈ ks.writes, w.1 < ks.weights.size := by
  rintro ⟨p, v⟩ hwrite
  obtain ⟨k, hk, x, y, row, w, hrow, hw, rfl, -⟩ := mem_writes.mp hwrite
  obtain ⟨hx, hy⟩ := (hshaped k hk).lt_of_getElem? hrow hw
  obtain ⟨hwidth, hheight⟩ := h.size_le hk
  rw [h.size_weights]
  exact slot_lt (h.index_lt hk) (hx.trans_le hwidth) (hy.trans_le hheight)

/-- **The table is what the writes make it**: none of them is undone by another one, and what they
leave out is zero. -/
theorem Compiled.weights_eq_written (h : ks.Compiled cell) (hshaped : ∀ k ∈ ks.kernels, k.Shaped) :
    ks.weights = ks.written := by
  have hsize : ks.written.size = ks.weights.size := by
    rw [written, size_foldl_set, Array.size_replicate, h.size_weights]
  refine Array.ext_getElem? fun p => ?_
  by_cases hp : p < ks.weights.size
  · obtain ⟨i, hi, x, hx, y, hy, rfl⟩ := exists_slot (h.size_weights ▸ hp)
    obtain ⟨k, hk, rfl⟩ := h.exists_kernel hi
    rw [← weight?_eq_getElem?, h.weight?_of_lt hk hx hy, written, getElem?_foldl_set]
    · rw [Array.size_replicate, ← h.size_weights]
      exact hp
    · rintro ⟨p, v⟩ hwrite hslot
      obtain ⟨k', hk', x', y', row, w, hrow, hw, rfl, rfl⟩ := mem_writes.mp hwrite
      obtain ⟨hx', hy'⟩ := (hshaped k' hk').lt_of_getElem? hrow hw
      obtain ⟨hwidth, hheight⟩ := h.size_le hk'
      obtain ⟨hindex, rfl, rfl⟩ :=
        slot_inj (hx'.trans_le hwidth) hx (hy'.trans_le hheight) hy hslot
      have hsame : k' = k := Option.some.inj <|
        (h.getElem?_index hk').symm.trans (hindex ▸ h.getElem?_index hk)
      exact (Kernel.entry_of_getElem? (hsame ▸ hrow) hw).symm
    · by_cases hin : x < k.width ∧ y < k.height
      · obtain ⟨row, w, hrow, hw⟩ := (hshaped k hk).exists_getElem? hin.1 hin.2
        exact .inl ⟨(_, _), mem_writes.mpr ⟨k, hk, x, y, row, w, hrow, hw, rfl, rfl⟩, rfl⟩
      · right
        rw [(hshaped k hk).entry_eq_zero (by omega), Array.getElem?_replicate,
          if_pos (h.size_weights ▸ hp)]
  · rw [Array.getElem?_eq_none (by omega), Array.getElem?_eq_none (by omega)]

/-- The table of declared kernels. -/
lemma tabulates_of_compile {specs : List KernelSpec} (h : KernelSet.compile specs cell = .ok ks) :
    ks.Tabulates specs := by
  have hcompiled := compiled_of_compile h
  obtain ⟨hall, -, -, htable⟩ := compile_eq_ok_iff.mp h
  have hshaped : ∀ k ∈ ks.kernels, k.Shaped := by
    intro k hk
    obtain ⟨s, -, hs⟩ := exists_left_of_forall₂ hall k hk
    exact hs.shaped
  have hmatrices : specs.map KernelSpec.matrix = ks.kernels.map Kernel.matrix :=
    map_eq_of_forall₂ hall fun _ _ hk => hk.matrix.symm
  exact {
    length := hall.length_eq.symm
    declared := by
      intro i k hk
      have hplace := hcompiled.getElem?_index (List.mem_of_getElem? hk)
      refine ⟨?_, ?_⟩
      · have hindex := congrArg (fun indices => indices[i]?) hcompiled.index
        obtain ⟨hi, -⟩ := List.getElem?_eq_some_iff.mp hk
        simpa [hk, List.getElem?_range hi] using hindex
      · rw [← List.getElem?_map, hmatrices, List.getElem?_map, hk, Option.map_some]
    shaped := hshaped
    width := by
      conv_lhs => rw [htable]
      exact foldl_max_eq_max? Kernel.width _
    height := by
      conv_lhs => rw [htable]
      exact foldl_max_eq_max? Kernel.height _
    size := hcompiled.size_weights
    inside := by
      intro k hk x hx y hy
      obtain ⟨row, w, hrow, hw⟩ := (hshaped k hk).exists_getElem? hx hy
      refine ⟨row, w, hrow, hw, ?_⟩
      rw [hcompiled.weight?_eq hk hx hy, Kernel.entry_of_getElem? hrow hw]
    padding := by
      intro k hk x hx y hy hout
      rw [hcompiled.weight?_of_lt hk hx hy, (hshaped k hk).entry_eq_zero hout]
    apart := fun _ _ _ hx _ hx' _ hy _ hy' => slot_inj hx hx' hy hy'
    inBounds := hcompiled.inBounds_writes hshaped
    written := hcompiled.weights_eq_written hshaped }

/-- Kernels of the same matrix have the same weights, whatever tables they stand in. -/
lemma Tabulates.weight?_congr {specs specs' : List KernelSpec} {ks ks' : KernelSet}
    (h : ks.Tabulates specs) (h' : ks'.Tabulates specs') {k k' : Kernel} (hk : k ∈ ks.kernels)
    (hk' : k' ∈ ks'.kernels) (hmatrix : k'.matrix = k.matrix) {x y : Nat} (hx : x < k.width)
    (hy : y < k.height) : ks'.weight? k'.index x y = ks.weight? k.index x y := by
  obtain ⟨row, w, hrow, hw, hweight⟩ := h.inside k hk x hx y hy
  obtain ⟨hx', hy'⟩ := (h'.shaped k' hk').lt_of_getElem? (hmatrix ▸ hrow) hw
  obtain ⟨row', w', hrow', hw', hweight'⟩ := h'.inside k' hk' x hx' y hy'
  rw [hmatrix, hrow, Option.some.injEq] at hrow'
  rw [← hrow', hw, Option.some.injEq] at hw'
  rw [hweight', hweight, hw']

/-- **The table is faithful.**  Declared kernels stand in it in their order, each with its own
weights and zeros around them; and a kernel has these weights in every other table too, whatever
kernels it shares it with. -/
theorem compile_tabulates {specs : List KernelSpec} (h : KernelSet.compile specs cell = .ok ks) :
    ks.Tabulates specs ∧
      ∀ (specs' : List KernelSpec) (cell' : Ty) (ks' : KernelSet),
        KernelSet.compile specs' cell' = .ok ks' → ∀ k ∈ ks.kernels, ∀ k' ∈ ks'.kernels,
          k'.matrix = k.matrix → ∀ x < k.width, ∀ y < k.height,
            ks'.weight? k'.index x y = ks.weight? k.index x y := by
  refine ⟨tabulates_of_compile h, ?_⟩
  intro specs' cell' ks' h' k hk k' hk' hmatrix x hx y hy
  exact (tabulates_of_compile h).weight?_congr (tabulates_of_compile h') hk hk' hmatrix hx hy

/-- A kernel of one row. -/
def acrossSpec : KernelSpec :=
  { name := "across", matrix := [[1, 0, 2]], valueFn := "cell", type := "int", overflow := "zero" }

/-- A kernel of one column. -/
def downSpec : KernelSpec :=
  { name := "down", matrix := [[3], [0], [4]], valueFn := "cell", type := "int", overflow := "wrap" }

/-- A row that shares its table with a column in front of it keeps its weights. -/
theorem compile_tabulates_shared : ∃ ks ks', KernelSet.compile [acrossSpec] .int = .ok ks ∧
    KernelSet.compile [downSpec, acrossSpec] .int = .ok ks' ∧ (ks'.width, ks'.height) = (3, 3) ∧
      ks'.Tabulates [downSpec, acrossSpec] ∧
      ∀ x < 3, ks'.weight? 1 x 0 = ks.weight? 0 x 0 := by
  obtain ⟨ks, hks, hk⟩ : ∃ ks, KernelSet.compile [acrossSpec] .int = .ok ks ∧
      ks.kernels.map (fun k => (k.index, k.width, k.height)) = [(0, 3, 1)] :=
    exists_ok_of_toOption (by decide +kernel)
  obtain ⟨ks', hks', hk'⟩ : ∃ ks', KernelSet.compile [downSpec, acrossSpec] .int = .ok ks' ∧
      ks'.kernels.map (fun k => (k.index, k.width, k.height)) = [(0, 1, 3), (1, 3, 1)] :=
    exists_ok_of_toOption (by decide +kernel)
  obtain ⟨htable, hsame⟩ := compile_tabulates hks
  obtain ⟨htable', -⟩ := compile_tabulates hks'
  obtain ⟨k, hkernels, hshape⟩ := List.map_eq_singleton_iff.mp hk
  obtain ⟨down, _, hkernels', hdown, hrest⟩ := List.map_eq_cons_iff.mp hk'
  obtain ⟨k', rfl, hshape'⟩ := List.map_eq_singleton_iff.mp hrest
  simp only [Prod.mk.injEq] at hshape hdown hshape'
  have hmatrix : k.matrix = acrossSpec.matrix := by
    simpa using (htable.declared 0 k (by rw [hkernels]; rfl)).2.symm
  have hmatrix' : k'.matrix = acrossSpec.matrix := by
    simpa using (htable'.declared 1 k' (by rw [hkernels']; rfl)).2.symm
  refine ⟨ks, ks', hks, hks', ?_, htable', ?_⟩
  · rw [htable'.width, htable'.height, hkernels']
    simp [hdown, hshape']
  · intro x hx
    have h := hsame _ _ ks' hks' k (by simp [hkernels]) k' (by simp [hkernels'])
      (hmatrix'.trans hmatrix.symm) x (by omega) 0 (by omega)
    rwa [hshape.1, hshape'.1] at h

end KernelSet

end Cellular
