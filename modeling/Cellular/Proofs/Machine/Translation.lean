import Cellular.Proofs.Machine.Locality

/-!
# Translations of a closed board

A board whose kernels all close onto it has no distinguished place.

* `Board.shift` moves a board cyclically, and `Board.get?_shift` reads the moved board.
* `Kernel.visits_wrap`: the places that a closing kernel reads are given by offsets alone, in an
  order that does not depend on the place.
* `Machine.count_shift` and `Machine.stepCell_shift`: counts and next records move with the board;
  `Compiled.step_shift` is the statement for a step, `Machine.run_shift` the one for a run.

Float sums depend on the order of their terms, so it is not enough that a count around the moved
place has the same cells.  The theorem on windows therefore gives them as a list: place by place in
the order of the matrix, each at a fixed offset from the middle, reduced by the size of the board.
Moving the board moves the reduced place, and reducing twice is reducing once.  The list of weighted
values is then the same list, and everything computed from it is the same without any property of
floats.  A kernel that clips or clamps has no such list, which is why all kernels of the
configuration have to close.
-/

namespace Cellular

/-! ## Moved boards

A moved board is given by what stands at each of its places.  Two full boards with the same cells at
all places are equal, which turns the statement for a step into one for single cells.
-/

namespace Board

/-- Boards of one size that have the same cell at every place are the same. -/
lemma Full.ext {b d : Board} (hb : b.Full) (hd : d.Full) (hwidth : d.width = b.width)
    (hheight : d.height = b.height)
    (h : ∀ x < b.width, ∀ y < b.height, b.get? x y = d.get? x y) : b = d := by
  obtain ⟨width, height, cells⟩ := b
  obtain ⟨_, _, cells'⟩ := d
  obtain rfl : _ = width := hwidth
  obtain rfl : _ = height := hheight
  have hcells : cells = cells' := by
    apply Array.ext_getElem?
    intro i
    by_cases hi : i < cells.size
    · obtain ⟨x, y, hplace, hx, hy⟩ := hb.place? hi
      have hcell := h x hx y hy
      rw [hb.get?_eq hx hy, hd.get?_eq hx hy] at hcell
      rwa [(Grid.place?_eq_some.mp hplace).1]
    · have hi' : ¬ i < cells'.size := by rwa [hd, ← hb]
      rw [Array.getElem?_eq_none (not_lt.mp hi), Array.getElem?_eq_none (not_lt.mp hi')]
  rw [hcells]

/-- The board moved cyclically by `(dx, dy)`: the cell at `(x, y)` goes to `(x + dx, y + dy)`, around
the edges. -/
def shift (b : Board) (dx dy : Int) : Board :=
  { b with cells := ((List.range b.cells.size).map fun i =>
      (b.get? (((i % b.width : Nat) - dx) % b.width)
        (((i / b.width : Nat) - dy) % b.height)).getD {}).toArray }

variable {b : Board}

lemma Full.shift (hb : b.Full) (dx dy : Int) : (b.shift dx dy).Full := by
  simpa [Board.Full, Board.shift] using hb

/-- **The cell of the moved board at a place is the one that stood `(dx, dy)` before it.** -/
theorem get?_shift (hb : b.Full) (dx dy : Int) {x y : Int} (hx : 0 ≤ x ∧ x < b.width)
    (hy : 0 ≤ y ∧ y < b.height) :
    (b.shift dx dy).get? x y = b.get? ((x - dx) % b.width) ((y - dy) % b.height) := by
  obtain ⟨i, rfl⟩ := Int.eq_ofNat_of_zero_le hx.1
  obtain ⟨j, rfl⟩ := Int.eq_ofNat_of_zero_le hy.1
  have hi : i < b.width := by exact_mod_cast hx.2
  have hj : j < b.height := by exact_mod_cast hy.2
  have hplace : Grid.place? (j * b.width + i) b.width = some (i, j) :=
    Grid.place?_eq_some.mpr ⟨rfl, hi⟩
  rw [Grid.place?, if_neg (by omega), Option.some.injEq, Prod.mk.injEq] at hplace
  obtain ⟨r, hr⟩ := hb.get? (x := ((i : Int) - dx) % b.width) (y := ((j : Int) - dy) % b.height)
    ⟨Int.emod_nonneg _ (by omega), Int.emod_lt_of_pos _ (by omega)⟩
    ⟨Int.emod_nonneg _ (by omega), Int.emod_lt_of_pos _ (by omega)⟩
  rw [(hb.shift dx dy).get?_eq (x := i) (y := j) hi hj]
  simp only [Board.shift, List.getElem?_toArray, List.getElem?_map,
    List.getElem?_range (hb.number_lt hi hj), Option.map_some, hplace, hr, Option.getD_some]

/-- The same around the edges. -/
lemma get?_shift_emod (hb : b.Full) (hw : 0 < b.width) (hh : 0 < b.height) (dx dy x y : Int) :
    (b.shift dx dy).get? (x % b.width) (y % b.height)
      = b.get? ((x - dx) % b.width) ((y - dy) % b.height) := by
  have hw' : (0 : Int) < b.width := by exact_mod_cast hw
  have hh' : (0 : Int) < b.height := by exact_mod_cast hh
  rw [get?_shift hb dx dy ⟨Int.emod_nonneg _ hw'.ne', Int.emod_lt_of_pos _ hw'⟩
    ⟨Int.emod_nonneg _ hh'.ne', Int.emod_lt_of_pos _ hh'⟩, Int.emod_sub_emod, Int.emod_sub_emod]

end Board

/-! ## Counts on a closed board

A closing kernel visits a cell for each of its places and leaves none out, however small the board
is.
-/

namespace Kernel

/-- What a closing kernel reads from one of its places. -/
def wrapped (k : Kernel) (width height : Nat) (x y : Int) (p : Nat × Nat) : Visit :=
  ⟨p.1, p.2, (x + p.1 - k.offsetX) % width, (y + p.2 - k.offsetY) % height⟩

/-- **A closing kernel reads one cell for each of its places.** -/
theorem visits_wrap {k : Kernel} (hk : k.overflow = .wrap) {width height : Nat} (hw : 0 < width)
    (hh : 0 < height) (x y : Int) :
    k.visits width height x y = .ok (k.places.map (k.wrapped width height x y)) := by
  have hfrom : ∀ places : List (Nat × Nat),
      k.visitsFrom width height x y places = .ok (places.map (k.wrapped width height x y)) := by
    intro places
    induction places with
    | nil => rfl
    | cons p places ih =>
        simp only [Kernel.visitsFrom, hk, Overflow.locate, Grid.wrapOnto?, hw.ne', hh.ne', if_false,
          ok_bind, ih]
        rfl
  exact hfrom k.places

/-- Around places that are the same on the closed board a kernel reads the same. -/
lemma wrapped_emod (k : Kernel) (width height : Nat) (x y : Int) :
    k.wrapped width height (x % width) (y % height) = k.wrapped width height x y := by
  funext p
  simp only [wrapped, Int.add_sub_assoc, Int.emod_add_emod]

end Kernel

namespace Machine

variable {m : Machine} {b : Board}

/-- **A count moves with the board.**  The weighted values are the same ones in the same order, so
the rounded sums are the same too. -/
theorem count_shift (hb : b.Full) (hw : 0 < b.width) (hh : 0 < b.height) {k : Kernel}
    (hk : k.overflow = .wrap) (dx dy x y : Int) :
    m.count (b.shift dx dy) k x y
      = m.count b k ((x - dx) % b.width) ((y - dy) % b.height) := by
  have hweigh : ∀ p ∈ k.places,
      m.weigh (b.shift dx dy) k (k.wrapped b.width b.height x y p)
        = m.weigh b k (k.wrapped b.width b.height (x - dx) (y - dy) p) := by
    intro p _
    have hcell := Board.get?_shift_emod hb hw hh dx dy (x + p.1 - k.offsetX) (y + p.2 - k.offsetY)
    rw [show x + p.1 - k.offsetX - dx = x - dx + p.1 - k.offsetX by ring,
      show y + p.2 - k.offsetY - dy = y - dy + p.2 - k.offsetY by ring] at hcell
    simp only [weigh, Kernel.wrapped, hcell]
  have hvisits : k.visits (b.shift dx dy).width (b.shift dx dy).height x y = _ :=
    k.visits_wrap hk hw hh x y
  rw [count, count, hvisits, Kernel.visits_wrap hk hw hh, Kernel.wrapped_emod, ok_bind, ok_bind,
    total_map hweigh]

lemma countAll_shift (hb : b.Full) (hw : 0 < b.width) (hh : 0 < b.height) (dx dy x y : Int) :
    ∀ {ks : List Kernel}, (∀ k ∈ ks, k.overflow = .wrap) →
      m.countAll (b.shift dx dy) x y ks
        = m.countAll b ((x - dx) % b.width) ((y - dy) % b.height) ks
  | [], _ => rfl
  | k :: ks, h => by
      rw [List.forall_mem_cons] at h
      simp only [countAll, count_shift hb hw hh h.1, countAll_shift hb hw hh dx dy x y h.2]

/-! ## Generations on a closed board

A cell and its counts move together, and nothing else enters the next record.  The numbers of the
cells do not move along; the step of the moved board finds its cells in another order, which the
comparison place by place does not notice.
-/

/-- The next record of a cell moves with the board. -/
lemma stepCell_shift (hb : b.Full) (hwrap : ∀ k ∈ m.kernels.kernels, k.overflow = .wrap)
    (dx dy : Int) {x y : Int} (hx : 0 ≤ x ∧ x < b.width) (hy : 0 ≤ y ∧ y < b.height) :
    m.stepCell (b.shift dx dy) x y
      = m.stepCell b ((x - dx) % b.width) ((y - dy) % b.height) := by
  have hw : 0 < b.width := by omega
  have hh : 0 < b.height := by omega
  simp only [stepCell, counts, countAll_shift hb hw hh dx dy x y hwrap,
    Board.get?_shift hb dx dy hx hy]

/-- **A step of a moved board is the moved step.** -/
theorem step_of_shift {c : Compiled} (hc : c.WellFormed)
    (hwrap : ∀ k ∈ c.kernels.kernels, k.overflow = .wrap) (hb : b.Full) {next : Board}
    (h : c.machine.step b = .ok next) (dx dy : Int) :
    c.machine.step (b.shift dx dy) = .ok (next.shift dx dy) := by
  obtain ⟨next', hnext', hwidth, hheight, hfull⟩ := step_ok hc hb
  obtain rfl := Except.ok.inj (hnext'.symm.trans h)
  obtain ⟨moved, hmoved, hmovedWidth, hmovedHeight, hmovedFull⟩ := step_ok hc (hb.shift dx dy)
  have hsame : moved = next'.shift dx dy := by
    apply hmovedFull.ext (hfull.shift dx dy) (hwidth.trans hmovedWidth.symm)
      (hheight.trans hmovedHeight.symm)
    intro x hx y hy
    rw [hmovedWidth] at hx
    rw [hmovedHeight] at hy
    obtain ⟨r, hr, hget⟩ := get?_step (hb.shift dx dy) hmoved hx hy
    have hx' : (0 : Int) ≤ x ∧ (x : Int) < b.width := by
      exact ⟨Int.natCast_nonneg x, by exact_mod_cast hx⟩
    have hy' : (0 : Int) ≤ y ∧ (y : Int) < b.height := by
      exact ⟨Int.natCast_nonneg y, by exact_mod_cast hy⟩
    rw [stepCell_shift hb hwrap dx dy hx' hy'] at hr
    -- the place that the cell comes from, as natural numbers
    obtain ⟨i, hi⟩ := Int.eq_ofNat_of_zero_le
      (Int.emod_nonneg ((x : Int) - dx) (b := b.width) (by omega))
    obtain ⟨j, hj⟩ := Int.eq_ofNat_of_zero_le
      (Int.emod_nonneg ((y : Int) - dy) (b := b.height) (by omega))
    have hi' := Int.emod_lt_of_pos ((x : Int) - dx) (b := b.width) (by omega)
    have hj' := Int.emod_lt_of_pos ((y : Int) - dy) (b := b.height) (by omega)
    obtain ⟨s, hs, hget'⟩ := get?_step hb hnext' (x := i) (y := j) (by omega) (by omega)
    rw [hi, hj] at hr
    obtain rfl := Except.ok.inj (hr.symm.trans hs)
    rw [hget, Board.get?_shift hfull dx dy (hwidth ▸ hx') (hheight ▸ hy'), hwidth, hheight, hi, hj,
      hget']
  rw [hmoved, hsame]

end Machine

/-- The kernels of a configuration that closes onto the board close onto it. -/
lemma Config.wrap_of_compile {config : Config} {c : Compiled} (h : config.compile = .ok c)
    (hwrap : ∀ s ∈ config.neighbourCounts, s.overflow = Overflow.wrap.name) :
    ∀ k ∈ c.kernels.kernels, k.overflow = .wrap := by
  obtain ⟨-, hkernels, -⟩ := Config.compile_eq_ok_iff.mp h
  obtain ⟨hall, -⟩ := KernelSet.compile_eq_ok_iff.mp hkernels
  intro k hk
  obtain ⟨s, hs, hdeclares⟩ := exists_left_of_forall₂ hall k hk
  have hoverflow := hdeclares.overflow
  rw [hwrap s hs, show Overflow.ofName? Overflow.wrap.name = some .wrap by decide] at hoverflow
  exact (Option.some.inj hoverflow).symm

/-- **Translation equivariance on a closed board.**  All kernels of a compiled rule close onto the
board.  Then a step of the board moved cyclically by any `(dx, dy)` is the step of the board, moved
by `(dx, dy)`. -/
theorem Compiled.step_shift {config : Config} {c : Compiled} (h : config.compile = .ok c)
    (hwrap : ∀ s ∈ config.neighbourCounts, s.overflow = Overflow.wrap.name) {b : Board}
    (hb : b.cells.size = b.width * b.height) (dx dy : Int) :
    ∃ next, c.machine.step b = .ok next ∧
      c.machine.step (b.shift dx dy) = .ok (next.shift dx dy) := by
  have hc := Config.wellFormed_of_compile h
  obtain ⟨next, hnext, -⟩ := Machine.step_ok hc hb
  exact ⟨next, hnext, Machine.step_of_shift hc (Config.wrap_of_compile h hwrap) hb hnext dx dy⟩

/-- Two cells in a row, moved backward and around; the kernel reads each of them several times. -/
theorem Compiled.step_shift_aging :
    ∃ c, Config.aging.compile = .ok c ∧
      Board.shift ⟨2, 1, #[⟨1, 0, 0, 0⟩, ⟨255, 3, 0, 0⟩]⟩ (-3) 5
        = ⟨2, 1, #[⟨255, 3, 0, 0⟩, ⟨1, 0, 0, 0⟩]⟩ ∧
      ∃ next, c.machine.step ⟨2, 1, #[⟨1, 0, 0, 0⟩, ⟨255, 3, 0, 0⟩]⟩ = .ok next ∧
        c.machine.step (Board.shift ⟨2, 1, #[⟨1, 0, 0, 0⟩, ⟨255, 3, 0, 0⟩]⟩ (-3) 5)
          = .ok (next.shift (-3) 5) := by
  obtain ⟨c, hc, -⟩ := Config.aging_compiles
  exact ⟨c, hc, by decide, Compiled.step_shift hc (by decide) (by decide) (-3) 5⟩

/-- **A run of a moved board is the moved run.** -/
theorem Machine.run_shift {c : Compiled} (hc : c.WellFormed)
    (hwrap : ∀ k ∈ c.kernels.kernels, k.overflow = .wrap) {b : Board} (hb : b.Full) {last : Board}
    {n : Nat} (h : c.machine.run b n = .ok last) (dx dy : Int) :
    c.machine.run (b.shift dx dy) n = .ok (last.shift dx dy) := by
  induction n generalizing b with
  | zero =>
      cases h
      rfl
  | succ n ih =>
      simp only [run, bind_eq_ok] at h ⊢
      obtain ⟨next, hnext, hlast⟩ := h
      obtain ⟨next', hnext', -, -, hfull⟩ := step_ok hc hb
      obtain rfl := Except.ok.inj (hnext'.symm.trans hnext)
      exact ⟨next'.shift dx dy, step_of_shift hc hwrap hb hnext dx dy, ih hfull hlast⟩

end Cellular
