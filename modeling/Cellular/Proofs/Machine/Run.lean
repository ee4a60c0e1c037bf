import Cellular.Proofs.Compile
import Cellular.Proofs.Machine.Soundness

/-!
# Runs of compiled rules

A compiled rule runs on every board for any number of generations.

* `Overflow.locate_onBoard` and `Kernel.visits_onBoard`: whatever the sizes of kernel and board are,
  a kernel reads places of the board.
* `KernelSet.Counted` says that some counts have the types of their kernels;
  `Machine.counts_counted` computes such counts, and with them the rule meets its scope
  (`Frame.fits_rootScope`).
* `Machine.step_ok` makes one step, and `Machine.get?_step` says what it puts at each place;
  `Compiled.run_safe` makes a whole run.

The errors that a run can make are of three sorts: a place that is not on the board, an expression
without a value, and a wrap around a board without cells.  The first is excluded by the arithmetic
of places, on a board that has a cell for each of its places; the second by the types of the rule,
where the counts that it starts with have to be of the declared types; the third does not come up,
since a board without cells has nothing to step.  A step gives a full board again, so that a run of
any number of generations is safe by an induction that carries nothing else.
-/

namespace Cellular

/-! ## Places of a board

Kernels may be larger than the board they are used on, and then a place is wrapped several times
around or pushed to the edge from far away.  The policies bring every whole number into range or
leave the place out.
-/

namespace Grid

lemma wrapOnto?_onBoard (i : Int) {size : Nat} (h : 0 < size) :
    ∃ j, wrapOnto? i size = some j ∧ 0 ≤ j ∧ j < size := by
  have hsize : (0 : Int) < size := by exact_mod_cast h
  refine ⟨i % size, ?_, Int.emod_nonneg _ hsize.ne', Int.emod_lt_of_pos _ hsize⟩
  simp [wrapOnto?, h.ne']

lemma clampOnto_onBoard (i : Int) {size : Nat} (h : 0 < size) :
    0 ≤ clampOnto i size ∧ clampOnto i size < size := by
  rw [clampOnto]
  omega

/-- Numbers of cells and places determine each other. -/
lemma place?_eq_some {i cols x y : Nat} :
    place? i cols = some (x, y) ↔ i = y * cols + x ∧ x < cols := by
  rw [place?]
  split_ifs with h
  · simp [h]
  · rw [Option.some.injEq, Prod.mk.injEq]
    constructor
    · rintro ⟨rfl, rfl⟩
      exact ⟨(Nat.div_add_mod' i cols).symm, Nat.mod_lt _ (Nat.pos_of_ne_zero h)⟩
    · rintro ⟨rfl, hx⟩
      rw [Nat.add_comm, Nat.add_mul_mod_self_right, Nat.add_mul_div_right _ _ (by omega)]
      exact ⟨Nat.mod_eq_of_lt hx, by rw [Nat.div_eq_of_lt hx, Nat.zero_add]⟩

end Grid

/-- On a board with cells, a policy gives a place of the board or nothing. -/
lemma Overflow.locate_onBoard (o : Overflow) {width height : Nat} (hw : 0 < width) (hh : 0 < height)
    (x y : Int) :
    ∃ place, o.locate width height x y = .ok place ∧
      ∀ cx cy, place = some (cx, cy) → (0 ≤ cx ∧ cx < width) ∧ 0 ≤ cy ∧ cy < height := by
  cases o with
  | wrap =>
      obtain ⟨cx, hx, hcx⟩ := Grid.wrapOnto?_onBoard x hw
      obtain ⟨cy, hy, hcy⟩ := Grid.wrapOnto?_onBoard y hh
      refine ⟨some (cx, cy), by simp [Overflow.locate, hx, hy], ?_⟩
      rintro _ _ ⟨⟩
      exact ⟨hcx, hcy⟩
  | border =>
      refine ⟨_, rfl, ?_⟩
      rintro _ _ ⟨⟩
      exact ⟨Grid.clampOnto_onBoard x hw, Grid.clampOnto_onBoard y hh⟩
  | zero =>
      refine ⟨_, rfl, ?_⟩
      intro cx cy hplace
      split_ifs at hplace with hon
      cases hplace
      simpa [Grid.onBoard] using hon

namespace Kernel

/-- The places of a kernel lie inside its matrix. -/
lemma mem_places {k : Kernel} {ix iy : Nat} (h : (ix, iy) ∈ k.places) :
    ix < k.width ∧ iy < k.height := by
  simp only [Kernel.places, List.mem_flatMap, List.mem_map, List.mem_range, Prod.mk.injEq] at h
  obtain ⟨i, hi, j, hj, rfl, rfl⟩ := h
  exact ⟨hi, hj⟩

/-- A visit to a place of the board from a place of the kernel. -/
def Inside (k : Kernel) (width height : Nat) (v : Visit) : Prop :=
  (v.ix < k.width ∧ v.iy < k.height) ∧ (0 ≤ v.cx ∧ v.cx < width) ∧ 0 ≤ v.cy ∧ v.cy < height

/-- A kernel of any size reads places of the board, around any place. -/
lemma visits_onBoard (k : Kernel) {width height : Nat} (hw : 0 < width) (hh : 0 < height)
    (x y : Int) :
    ∃ visits, k.visits width height x y = .ok visits ∧
      ∀ v ∈ visits, k.Inside width height v := by
  have hfrom : ∀ places : List (Nat × Nat), (∀ p ∈ places, p.1 < k.width ∧ p.2 < k.height) →
      ∃ visits, k.visitsFrom width height x y places = .ok visits ∧
        ∀ v ∈ visits, k.Inside width height v := by
    intro places
    induction places with
    | nil => exact fun _ => ⟨[], rfl, by simp⟩
    | cons p places ih =>
        intro hplaces
        obtain ⟨ix, iy⟩ := p
        obtain ⟨others, hothers, hinside⟩ := ih fun p hp => hplaces p (List.mem_cons_of_mem _ hp)
        obtain ⟨place, hplace, hon⟩ :=
          k.overflow.locate_onBoard hw hh (x + ix - k.offsetX) (y + iy - k.offsetY)
        cases place with
        | none =>
            refine ⟨others, ?_, hinside⟩
            simp only [Kernel.visitsFrom, hplace, hothers, ok_bind]
            rfl
        | some place =>
            obtain ⟨cx, cy⟩ := place
            refine ⟨⟨ix, iy, cx, cy⟩ :: others, ?_, ?_⟩
            · simp only [Kernel.visitsFrom, hplace, hothers, ok_bind]
              rfl
            · rw [List.forall_mem_cons]
              exact ⟨⟨hplaces _ List.mem_cons_self, hon cx cy rfl⟩, hinside⟩
  exact hfrom k.places fun p hp => mem_places hp

end Kernel

namespace Board

/-- A board with a cell for each of its places. -/
def Full (b : Board) : Prop := b.cells.size = b.width * b.height

/-- Places are numbered row by row. -/
lemma Full.number_lt {b : Board} (hb : b.Full) {x y : Nat} (hx : x < b.width) (hy : y < b.height) :
    y * b.width + x < b.cells.size := by
  calc y * b.width + x < y * b.width + b.width := by omega
    _ = b.width * (y + 1) := by ring
    _ ≤ b.width * b.height := Nat.mul_le_mul_left _ hy
    _ = b.cells.size := hb.symm

/-- On a full board the number of a place is that of its cell. -/
lemma Full.get?_eq {b : Board} (hb : b.Full) {x y : Nat} (hx : x < b.width) (hy : y < b.height) :
    b.get? x y = b.cells[y * b.width + x]? := by
  have hlt := hb.number_lt hx hy
  have hcast : (y : Int) * b.width + x = ((y * b.width + x : Nat) : Int) := by push_cast; ring
  have hindex : b.index? x y = some (y * b.width + x) := by
    rw [Board.index?]
    simp only [hcast]
    rw [if_pos (by simp only [Bool.and_eq_true, decide_eq_true_eq]; omega)]
    rfl
  rw [Board.get?, hindex, Option.bind_some]

/-- Every place of a full board has a cell. -/
lemma Full.get? {b : Board} (hb : b.Full) {x y : Int} (hx : 0 ≤ x ∧ x < b.width)
    (hy : 0 ≤ y ∧ y < b.height) : ∃ r, b.get? x y = some r := by
  obtain ⟨i, rfl⟩ := Int.eq_ofNat_of_zero_le hx.1
  obtain ⟨j, rfl⟩ := Int.eq_ofNat_of_zero_le hy.1
  have hi : i < b.width := by exact_mod_cast hx.2
  have hj : j < b.height := by exact_mod_cast hy.2
  exact ⟨_, (hb.get?_eq hi hj).trans (Array.getElem?_eq_getElem (hb.number_lt hi hj))⟩

/-- Every number of a cell is that of a place. -/
lemma Full.place? {b : Board} (hb : b.Full) {i : Nat} (hi : i < b.cells.size) :
    ∃ x y, Grid.place? i b.width = some (x, y) ∧ x < b.width ∧ y < b.height := by
  rw [hb] at hi
  have hwidth : 0 < b.width := Nat.pos_of_mul_pos_right (Nat.lt_of_le_of_lt (Nat.zero_le i) hi)
  refine ⟨i % b.width, i / b.width, by simp [Grid.place?, hwidth.ne'], Nat.mod_lt _ hwidth, ?_⟩
  exact Nat.div_lt_of_lt_mul hi

end Board

/-! ## Counts

A count adds up the values of a value function on cells, and at the end turns the sum into a value
of the declared type.  The value function is an expression of its own, with only the cell in scope.
-/

/-- Counts by name, for every kernel one of its type. -/
def KernelSet.Counted (ks : KernelSet) (counts : List (String × Value)) : Prop :=
  ∀ k ∈ ks.kernels, ∃ v, counts.lookup k.name = some v ∧ v.kind = k.result.type.kind

lemma CountType.kind_value (t : CountType) (total : Float32) :
    (t.value total).kind = t.type.kind := by
  cases t <;> rfl

lemma CountType.isScalar_type (t : CountType) : t.type.isScalar = true := by
  cases t <;> rfl

/-- A frame that holds only a cell fits the scope of a value function. -/
lemma Frame.fits_cell (l : Layout) (r : Record) :
    ({ cell := r } : Frame).Fits l (Scope.builtin [] cellName l.cellType) where
  stored := by
    intro b below hb hassign
    rcases List.suffix_cons_iff.mp hb with heq | hb
    · obtain ⟨rfl, -⟩ := List.cons.inj heq
      cases hassign
    · simp at hb
  given := by
    intro b below hb _
    rcases List.suffix_cons_iff.mp hb with heq | hb
    · obtain ⟨rfl, -⟩ := List.cons.inj heq
      exact .inl ⟨.inl rfl, rfl⟩
    · simp at hb
  scalar := by
    intro b below hb
    rcases List.suffix_cons_iff.mp hb with heq | hb
    · obtain ⟨rfl, -⟩ := List.cons.inj heq
      exact .inl rfl
    · simp at hb

/-- A frame with the counts of all kernels fits the scope that a rule starts in. -/
lemma Frame.fits_rootScope {l : Layout} {ks : KernelSet} (hks : ks.Compiled l.cellType)
    {counts : List (String × Value)} (hcounts : ks.Counted counts) (cell prev : Record) :
    ({ cell, prev, counts } : Frame).Fits l (rootScope l ks) where
  stored := by
    intro b below hb hassign
    have hmem : b ∈ rootScope l ks := hb.subset List.mem_cons_self
    rw [(mem_rootScope hmem).1] at hassign
    cases hassign
  given := by
    intro b below hb _
    have hmem : b ∈ rootScope l ks := hb.subset List.mem_cons_self
    rcases (mem_rootScope hmem).2 with hcell | ⟨k, hk, hname, htype⟩
    · exact .inl hcell
    · have hchecked := hks.checked k hk
      rw [hname, htype]
      exact .inr ⟨hchecked.name_ne_cell, hchecked.name_ne_prev, hcounts k hk⟩
  scalar := by
    intro b below hb
    have hmem : b ∈ rootScope l ks := hb.subset List.mem_cons_self
    rcases (mem_rootScope hmem).2 with ⟨-, htype⟩ | ⟨k, -, -, htype⟩
    · exact .inl htype
    · exact .inr (htype ▸ k.result.isScalar_type)

namespace Machine

variable {c : Compiled} {b : Board}

/-- Every visit inside kernel and board has a weighted value. -/
lemma weigh_ok (hc : c.WellFormed) (hb : b.Full) {k : Kernel} (hk : k ∈ c.kernels.kernels)
    {v : Visit} (hv : k.Inside b.width b.height v) : ∃ w, c.machine.weigh b k v = .ok w := by
  obtain ⟨⟨hx, hy⟩, hcx, hcy⟩ := hv
  obtain ⟨cell, hcell⟩ := hb.get? hcx hcy
  obtain ⟨value, hvalue, -⟩ := Expr.eval_wellTyped (Frame.fits_cell c.layout cell)
    (hc.kernels.checked k hk).typed (hc.kernelScalars k hk)
  refine ⟨k.entry v.ix v.iy * value.toFloat, ?_⟩
  simp only [Machine.weigh, Compiled.machine, hc.kernels.weight?_eq hk hx hy, hcell, hvalue,
    Except.mapError, ok_bind]
  rfl

lemma total_ok (hc : c.WellFormed) (hb : b.Full) {k : Kernel} (hk : k ∈ c.kernels.kernels) :
    ∀ {visits : List Visit} (_ : ∀ v ∈ visits, k.Inside b.width b.height v) (sum : Float32),
      ∃ total, c.machine.total b k sum visits = .ok total
  | [], _, sum => ⟨sum, rfl⟩
  | v :: visits, hvisits, sum => by
      rw [List.forall_mem_cons] at hvisits
      obtain ⟨w, hw⟩ := weigh_ok hc hb hk hvisits.1
      obtain ⟨total, htotal⟩ := total_ok hc hb hk hvisits.2 (sum + w)
      exact ⟨total, by rw [Machine.total, hw, ok_bind, htotal]⟩

/-- A count around any place of a board with cells has the type of its kernel. -/
lemma count_ok (hc : c.WellFormed) (hb : b.Full) (hw : 0 < b.width) (hh : 0 < b.height)
    {k : Kernel} (hk : k ∈ c.kernels.kernels) (x y : Int) :
    ∃ v, c.machine.count b k x y = .ok v ∧ v.kind = k.result.type.kind := by
  obtain ⟨visits, hvisits, hinside⟩ := k.visits_onBoard hw hh x y
  obtain ⟨total, htotal⟩ := total_ok hc hb hk hinside 0
  refine ⟨k.result.value total, ?_, k.result.kind_value total⟩
  rw [Machine.count, hvisits, ok_bind, htotal]
  rfl

/-- The counts of all kernels, each of its type. -/
lemma counts_counted (hc : c.WellFormed) (hb : b.Full) (hw : 0 < b.width) (hh : 0 < b.height)
    (x y : Int) :
    ∃ counts, c.machine.counts b x y = .ok counts ∧ c.kernels.Counted counts := by
  have hall : ∀ ks : List Kernel, (∀ k ∈ ks, k ∈ c.kernels.kernels) →
      (ks.map Kernel.name).Nodup → ∃ counts, c.machine.countAll b x y ks = .ok counts ∧
        ∀ k ∈ ks, ∃ v, counts.lookup k.name = some v ∧ v.kind = k.result.type.kind := by
    intro ks
    induction ks with
    | nil => exact fun _ _ => ⟨[], rfl, by simp⟩
    | cons k ks ih =>
        intro hmem hnodup
        rw [List.forall_mem_cons] at hmem
        rw [List.map_cons, List.nodup_cons] at hnodup
        obtain ⟨v, hv, hkind⟩ := count_ok hc hb hw hh hmem.1 x y
        obtain ⟨counts, hcounts, hlookup⟩ := ih hmem.2 hnodup.2
        refine ⟨(k.name, v) :: counts, ?_, ?_⟩
        · rw [Machine.countAll, hv, ok_bind, hcounts]
          rfl
        · rw [List.forall_mem_cons]
          refine ⟨⟨v, by simp, hkind⟩, ?_⟩
          intro k' hk'
          -- another kernel has another name, so its count stands behind this one
          have hne : (k'.name == k.name) = false := by
            rw [beq_eq_false_iff_ne]
            intro heq
            exact hnodup.1 (heq ▸ List.mem_map_of_mem hk')
          simpa [List.lookup_cons, hne] using hlookup k' hk'
  exact hall c.kernels.kernels (fun _ h => h) hc.kernels.names_nodup

/-! ## Generations

A step goes through the cells by their numbers and reads all of them from the old board.
-/

/-- Every cell has a next record. -/
lemma stepCell_ok (hc : c.WellFormed) (hb : b.Full) {x y : Int} (hx : 0 ≤ x ∧ x < b.width)
    (hy : 0 ≤ y ∧ y < b.height) : ∃ r, c.machine.stepCell b x y = .ok r := by
  have hw : 0 < b.width := by omega
  have hh : 0 < b.height := by omega
  obtain ⟨counts, hcounts, hcounted⟩ := counts_counted hc hb hw hh x y
  obtain ⟨prev, hprev⟩ := hb.get? hx hy
  obtain ⟨f, hf, -⟩ := Stmt.execAll_wellTyped hc.typed hc.scalars hc.spelled
    (Frame.fits_rootScope hc.kernels hcounted prev prev)
  refine ⟨Machine.clean c.layout f.cell, ?_⟩
  rw [Machine.stepCell, hcounts, ok_bind]
  simp only [hprev, Compiled.machine, hf, Except.mapError, ok_bind]
  rfl

lemma stepCells_ok (hc : c.WellFormed) (hb : b.Full) :
    ∀ {numbers : List Nat} (_ : ∀ i ∈ numbers, i < b.cells.size),
      ∃ rs, c.machine.stepCells b numbers = .ok rs ∧ rs.length = numbers.length
  | [], _ => ⟨[], rfl, rfl⟩
  | i :: numbers, hnumbers => by
      rw [List.forall_mem_cons] at hnumbers
      obtain ⟨x, y, hplace, hx, hy⟩ := hb.place? hnumbers.1
      obtain ⟨r, hr⟩ := stepCell_ok hc hb (x := x) (y := y) (by omega) (by omega)
      obtain ⟨rs, hrs, hlength⟩ := stepCells_ok hc hb hnumbers.2
      refine ⟨r :: rs, ?_, by simp [hlength]⟩
      simp only [Machine.stepCells, hplace, hr, hrs, ok_bind]
      rfl

/-- **A compiled rule makes a step on every full board**, to a full board of the same size. -/
theorem step_ok (hc : c.WellFormed) (hb : b.Full) :
    ∃ b', c.machine.step b = .ok b' ∧ b'.width = b.width ∧ b'.height = b.height ∧ b'.Full := by
  have hrange : ∀ i ∈ List.range b.cells.size, i < b.cells.size := fun i hi => List.mem_range.mp hi
  obtain ⟨rs, hrs, hlength⟩ := stepCells_ok hc hb hrange
  refine ⟨{ b with cells := rs.toArray }, ?_, rfl, rfl, ?_⟩
  · rw [Machine.step, hrs]
    rfl
  · rw [Board.Full]
    rw [List.size_toArray, hlength, List.length_range]
    exact hb

/-- Cells are stepped in the order of their numbers. -/
lemma stepCells_eq_ok {m : Machine} {b : Board} :
    ∀ {numbers : List Nat} {rs : List Record}, m.stepCells b numbers = .ok rs →
      rs.length = numbers.length ∧ ∀ j i : Nat, numbers[j]? = some i →
        ∃ x y r, Grid.place? i b.width = some (x, y) ∧ m.stepCell b x y = .ok r ∧ rs[j]? = some r
  | [], rs, h => by
      cases h
      simp
  | n :: numbers, rs, h => by
      rw [stepCells] at h
      split at h
      · cases h
      · rename_i x y hplace
        simp only [bind_eq_ok, pure_eq_ok] at h
        obtain ⟨r, hr, more, hmore, rfl⟩ := h
        obtain ⟨hlength, hall⟩ := stepCells_eq_ok hmore
        refine ⟨by simp [hlength], ?_⟩
        intro j i hj
        cases j with
        | zero =>
            obtain rfl : n = i := by simpa using hj
            exact ⟨x, y, r, hplace, hr, rfl⟩
        | succ j => exact hall j i (by simpa using hj)

/-- **A step puts the next record of each cell at its place.** -/
lemma get?_step {m : Machine} {b b' : Board} (hb : b.Full) (h : m.step b = .ok b') {x y : Nat}
    (hx : x < b.width) (hy : y < b.height) :
    ∃ r, m.stepCell b x y = .ok r ∧ b'.get? x y = some r := by
  simp only [step, bind_eq_ok, pure_eq_ok] at h
  obtain ⟨rs, hrs, rfl⟩ := h
  obtain ⟨hlength, hall⟩ := stepCells_eq_ok hrs
  rw [List.length_range] at hlength
  have hfull : Board.Full { b with cells := rs.toArray } := by
    rw [Board.Full, List.size_toArray, hlength]
    exact hb
  obtain ⟨x', y', r, hplace, hr, hget⟩ := hall _ _ (List.getElem?_range (hb.number_lt hx hy))
  rw [Grid.place?_eq_some.mpr ⟨rfl, hx⟩] at hplace
  obtain ⟨rfl, rfl⟩ := Prod.mk.inj (Option.some.inj hplace)
  refine ⟨r, hr, ?_⟩
  rw [hfull.get?_eq hx hy]
  simpa using hget

/-- The expressions that a step on a board looks at, with their frames: the value functions of the
kernels on the cells of the board, and for every cell what the rule looks at. -/
inductive Evaluates (m : Machine) (b : Board) : Expr Note → Frame → Prop where
  | value {k : Kernel} {r : Record} (hk : k ∈ m.kernels.kernels) (hr : r ∈ b.cells) :
      Evaluates m b k.value { cell := r }
  | rule {i x y : Nat} {counts : List (String × Value)} {prev : Record} {e : Expr Note} {f : Frame}
      (hi : i < b.cells.size) (hplace : Grid.place? i b.width = some (x, y))
      (hcounts : m.counts b x y = .ok counts) (hprev : b.get? x y = some prev)
      (he : (e, f) ∈ Stmt.evaluationsAll m.layout m.program.body { cell := prev, prev, counts }) :
      Evaluates m b e f

/-- What a step looks at is safe. -/
lemma safe_of_evaluates (hc : c.WellFormed) (hb : b.Full) {e : Expr Note} {f : Frame}
    (h : c.machine.Evaluates b e f) : e.Safe c.layout f := by
  cases h with
  | @value k r hk hr =>
      have hmeets : k.value.Meets c.layout { cell := r } :=
        ⟨_, (hc.kernels.checked k hk).typed, hc.kernelScalars k hk, Frame.fits_cell c.layout r⟩
      exact hmeets.safe
  | @rule i x y counts prev e f hi hplace hcounts hprev he =>
      obtain ⟨x', y', hplace', hx, hy⟩ := hb.place? hi
      obtain ⟨rfl, rfl⟩ := Prod.mk.inj (Option.some.inj (hplace.symm.trans hplace'))
      obtain ⟨counts', hcounts', hcounted⟩ :=
        counts_counted hc hb (Nat.zero_lt_of_lt hx) (Nat.zero_lt_of_lt hy) x y
      obtain rfl := Except.ok.inj (hcounts.symm.trans hcounts')
      exact (Stmt.meets_of_mem_evaluationsAll hc.typed hc.scalars hc.spelled
        (Frame.fits_rootScope hc.kernels hcounted prev prev) _ he).safe

end Machine

/-- **Compiled rules do not go wrong.**  A rule that compiles runs for any number of generations on
any board with a cell for each of its places, and gives a board of the same size.  On the way, each
expression and each of its parts has a value of the kind that the check found for it, and each
variable that is read was stored before with the kind of its declaration. -/
theorem Compiled.run_safe {config : Config} {c : Compiled} (h : config.compile = .ok c) {b : Board}
    (hb : b.cells.size = b.width * b.height) (n : Nat) :
    (∃ b', c.machine.run b n = .ok b' ∧ b'.width = b.width ∧ b'.height = b.height ∧
      b'.cells.size = b'.width * b'.height) ∧
    ∀ j < n, ∃ b', c.machine.run b j = .ok b' ∧
      ∀ e f, c.machine.Evaluates b' e f → e.Safe c.layout f := by
  have hc := Config.wellFormed_of_compile h
  induction n generalizing b with
  | zero => exact ⟨⟨b, rfl, rfl, rfl, hb⟩, by simp⟩
  | succ n ih =>
      obtain ⟨next, hnext, hwidth, hheight, hfull⟩ := Machine.step_ok hc hb
      obtain ⟨⟨last, hlast, hlastWidth, hlastHeight, hlastFull⟩, hsafe⟩ := ih hfull
      have hrun : ∀ j, c.machine.run b (j + 1) = c.machine.run next j := by
        intro j
        rw [Machine.run, hnext, ok_bind]
      refine ⟨⟨last, ?_, hlastWidth.trans hwidth, hlastHeight.trans hheight, hlastFull⟩, ?_⟩
      · rw [hrun, hlast]
      · intro j hj
        cases j with
        | zero => exact ⟨b, rfl, fun e f => Machine.safe_of_evaluates hc hb⟩
        | succ j =>
            obtain ⟨b', hb', hevaluated⟩ := hsafe j (by omega)
            exact ⟨b', by rw [hrun, hb'], hevaluated⟩

/-- Three generations on a board of two cells, around which the kernel wraps several times. -/
theorem Compiled.run_safe_aging :
    ∃ c, Config.aging.compile = .ok c ∧
      (∃ b', c.machine.run ⟨2, 1, #[⟨1, 0, 0, 0⟩, ⟨255, 255, 255, 255⟩]⟩ 3 = .ok b' ∧
        b'.width = 2 ∧ b'.height = 1 ∧ b'.cells.size = b'.width * b'.height) ∧
      ∀ j < 3, ∃ b', c.machine.run ⟨2, 1, #[⟨1, 0, 0, 0⟩, ⟨255, 255, 255, 255⟩]⟩ j = .ok b' ∧
        ∀ e f, c.machine.Evaluates b' e f → e.Safe c.layout f := by
  obtain ⟨c, hc, -⟩ := Config.aging_compiles
  exact ⟨c, hc, Compiled.run_safe hc (by decide) 3⟩

end Cellular
