import Cellular.Proofs.Machine.Locality

/-!
# Counts away from the edges

A kernel whose whole window lies on the board never asks its policy what stands outside.

* `Overflow.locate_of_onBoard`: every policy leaves a place of the board where it is.
* `Kernel.visits_interior`: so a kernel reads its window place by place, and `Machine.count_interior`
  counts without a policy.
* `Kernel.under`, `KernelSet.under` and `Machine.under` put another policy in the place of those that
  were declared; `KernelSet.compile_under` declares it.
* `Machine.count_under`: a count around an interior place is the same under every policy.

The condition on a place is that its distance to every edge is at least the half of the window, on
both sides.  A window with an even number of columns has one less behind its middle than before, and
the same condition is enough for it.  A board that the window just fills has one such place if the
sides of the window are odd.

The statements need nothing of the machine: no well-typed value function and no full board.  A count
that fails does so at the same cell with the same error, since the visits are the same list.
-/

namespace Cellular

/-! ## Places of the board

The three policies differ on places outside only.
-/

namespace Grid

lemma wrapOnto?_of_onBoard {i : Int} {size : Nat} (h : 0 ≤ i ∧ i < size) :
    wrapOnto? i size = some i := by
  have hsize : size ≠ 0 := by omega
  rw [wrapOnto?, if_neg hsize, Int.emod_eq_of_lt h.1 h.2]

lemma clampOnto_of_onBoard {i : Int} {size : Nat} (h : 0 ≤ i ∧ i < size) : clampOnto i size = i := by
  rw [clampOnto]
  omega

end Grid

/-- Every policy leaves a place of the board where it is. -/
lemma Overflow.locate_of_onBoard (o : Overflow) {width height : Nat} {x y : Int}
    (hx : 0 ≤ x ∧ x < width) (hy : 0 ≤ y ∧ y < height) :
    o.locate width height x y = .ok (some (x, y)) := by
  cases o with
  | wrap => rw [locate, Grid.wrapOnto?_of_onBoard hx, Grid.wrapOnto?_of_onBoard hy]
  | border => rw [locate, Grid.clampOnto_of_onBoard hx, Grid.clampOnto_of_onBoard hy]
  | zero =>
      have hon : (Grid.onBoard x width && Grid.onBoard y height) = true := by
        simp [Grid.onBoard, hx, hy]
      rw [locate, if_pos hon]

/-! ## Windows

A window is the list of places that the matrix has, each moved by the same offset.
-/

namespace Kernel

/-- Around `(x, y)` the window of the kernel does not leave a board of the given size. -/
structure Interior (k : Kernel) (width height : Nat) (x y : Int) : Prop where
  column : k.offsetX ≤ x ∧ x < width - k.offsetX
  row : k.offsetY ≤ y ∧ y < height - k.offsetY

/-- What a kernel reads from one of its places if nothing moves it. -/
def centred (k : Kernel) (x y : Int) (p : Nat × Nat) : Visit :=
  ⟨p.1, p.2, x + p.1 - k.offsetX, y + p.2 - k.offsetY⟩

variable {k : Kernel} {width height : Nat} {x y : Int}

/-- The window of an interior place lies on the board.  The last column of a kernel stands at most as
far behind the centre as its first one before, whether there are as many of both or not. -/
lemma Interior.onBoard (h : k.Interior width height x y) {p : Nat × Nat} (hp : p ∈ k.places) :
    (0 ≤ x + p.1 - k.offsetX ∧ x + p.1 - k.offsetX < width) ∧
      0 ≤ y + p.2 - k.offsetY ∧ y + p.2 - k.offsetY < height := by
  obtain ⟨hix, hiy⟩ := mem_places hp
  obtain ⟨hx, hy⟩ := h
  have hcolumn : p.1 ≤ 2 * k.offsetX := by
    rw [offsetX]
    omega
  have hrow : p.2 ≤ 2 * k.offsetY := by
    rw [offsetY]
    omega
  omega

/-- **Around an interior place a kernel reads its window**, whatever its policy is. -/
theorem visits_interior (h : k.Interior width height x y) :
    k.visits width height x y = .ok (k.places.map (k.centred x y)) := by
  have hfrom : ∀ places : List (Nat × Nat), places ⊆ k.places →
      k.visitsFrom width height x y places = .ok (places.map (k.centred x y)) := by
    intro places
    induction places with
    | nil => exact fun _ => rfl
    | cons p places ih =>
        intro hsub
        rw [List.cons_subset] at hsub
        obtain ⟨hx, hy⟩ := h.onBoard hsub.1
        rw [visitsFrom, k.overflow.locate_of_onBoard hx hy, ok_bind, ih hsub.2]
        rfl
  exact hfrom k.places (List.Subset.refl _)

end Kernel

/-- A count around an interior place is the total of the window. -/
lemma Machine.count_interior (m : Machine) (b : Board) {k : Kernel} {x y : Int}
    (h : k.Interior b.width b.height x y) :
    m.count b k x y = (do
      let sum ← m.total b k 0 (k.places.map (k.centred x y))
      return k.result.value sum) := by
  rw [count, Kernel.visits_interior h, ok_bind]

/-! ## Other policies

That a policy does not matter is a statement about two machines, which are alike but for the
policies of their kernels.  The weights are numbered by slots of the table and the table is built
from the matrices, so that another policy leaves the weights where they are.
-/

/-- The kernel with the policy `o`. -/
def Kernel.under (o : Overflow) (k : Kernel) : Kernel := { k with overflow := o }

/-- The same kernels and weights, all under the policy `o`. -/
def KernelSet.under (o : Overflow) (ks : KernelSet) : KernelSet :=
  { ks with kernels := ks.kernels.map (Kernel.under o) }

/-- The same rule with all its kernels under the policy `o`. -/
def Machine.under (o : Overflow) (m : Machine) : Machine := { m with kernels := m.kernels.under o }

/-- The declaration with the policy `o`. -/
def KernelSpec.under (o : Overflow) (s : KernelSpec) : KernelSpec := { s with overflow := o.name }

lemma Overflow.ofName?_name (o : Overflow) : Overflow.ofName? o.name = some o := by
  cases o <;> decide

/-- The weight table does not depend on policies. -/
lemma KernelSet.ofKernels_under (o : Overflow) (kernels : List Kernel) :
    ofKernels (kernels.map (Kernel.under o)) = (ofKernels kernels).under o := by
  simp only [ofKernels, under, tableOf, List.foldl_map, List.flatMap_map]
  rfl

/-- **Kernels that are declared with another policy compile to the same kernels under it**, with the
same weights. -/
theorem KernelSet.compile_under {specs : List KernelSpec} {cell : Ty} {ks : KernelSet}
    (h : KernelSet.compile specs cell = .ok ks) (o : Overflow) :
    KernelSet.compile (specs.map (KernelSpec.under o)) cell = .ok (ks.under o) := by
  obtain ⟨hall, hindices, hnodup, htable⟩ := compile_eq_ok_iff.mp h
  refine compile_eq_ok_iff.mpr ⟨?_, ?_, ?_, ?_⟩
  · rw [under, List.forall₂_map_left_iff, List.forall₂_map_right_iff]
    refine hall.imp fun s k hk => ?_
    exact ⟨hk.name, hk.named, hk.name_ne_cell, hk.name_ne_prev, hk.matrix, hk.size, hk.result,
      o.ofName?_name, hk.value, hk.scalar⟩
  · simpa [under, Function.comp_def, Kernel.under] using hindices
  · simpa [under, Function.comp_def, Kernel.under] using hnodup
  · rw [under, ofKernels_under, ← htable]
    rfl

namespace Machine

/-- What a visited place weighs does not depend on policies. -/
lemma weigh_under (m : Machine) (b : Board) (k : Kernel) (o : Overflow) (v : Visit) :
    (m.under o).weigh b (k.under o) v = m.weigh b k v := rfl

lemma total_under (m : Machine) (b : Board) (k : Kernel) (o : Overflow) :
    ∀ (visits : List Visit) (sum : Float32),
      (m.under o).total b (k.under o) sum visits = m.total b k sum visits
  | [], _ => rfl
  | v :: visits, sum => by simp only [total, weigh_under, total_under m b k o visits]

/-- **Policies matter at the edges only.**  Around a place whose window lies on the board, up to a
window that fills it, a count is the same value or the same error under any two policies. -/
theorem count_under (m : Machine) (b : Board) (k : Kernel) {x y : Int}
    (hx : k.offsetX ≤ x ∧ x < b.width - k.offsetX)
    (hy : k.offsetY ≤ y ∧ y < b.height - k.offsetY) (o o' : Overflow) :
    (m.under o).count b (k.under o) x y = (m.under o').count b (k.under o') x y := by
  have hwindow : ∀ o : Overflow, (m.under o).count b (k.under o) x y = (do
      let sum ← m.total b k 0 (k.places.map (k.centred x y))
      return k.result.value sum) := by
    intro o
    have hinterior : (k.under o).Interior b.width b.height x y := ⟨hx, hy⟩
    rw [count_interior _ b hinterior, total_under]
    rfl
  rw [hwindow o, hwindow o']

end Machine

/-- A board of nine cells, alive in three of its corners and on an edge. -/
def Board.corners : Board :=
  ⟨3, 3, #[⟨1, 0, 0, 0⟩, {}, ⟨3, 0, 0, 0⟩, {}, ⟨2, 1, 0, 0⟩, ⟨1, 0, 0, 0⟩, {}, {}, ⟨9, 0, 0, 0⟩]⟩

/-- The centre of a board that the window of the small rule just fills.  The kernel was declared to
close onto the board. -/
theorem Machine.count_under_filled :
    ∃ c k, Config.aging.compile = .ok c ∧ c.kernels.kernels = [k] ∧ k.overflow = .wrap ∧
      (k.offsetX ≤ (1 : Int) ∧ (1 : Int) < Board.corners.width - k.offsetX) ∧
      (k.offsetY ≤ (1 : Int) ∧ (1 : Int) < Board.corners.height - k.offsetY) ∧
      ∀ o o', (c.machine.under o).count .corners (k.under o) 1 1
        = (c.machine.under o').count .corners (k.under o') 1 1 := by
  obtain ⟨c, hc, hwindow⟩ := Config.aging_window
  obtain ⟨k, hkernels, hk⟩ := List.map_eq_singleton_iff.mp (Prod.mk.inj hwindow).2
  obtain ⟨hwidth, hheight, hoverflow⟩ : k.width = 3 ∧ k.height = 3 ∧ k.overflow = .wrap := by
    simpa using hk
  have hcolumn : k.offsetX = 1 := by rw [Kernel.offsetX, hwidth]
  have hrow : k.offsetY = 1 := by rw [Kernel.offsetY, hheight]
  have hx : k.offsetX ≤ (1 : Int) ∧ (1 : Int) < Board.corners.width - k.offsetX := by
    rw [hcolumn]
    decide
  have hy : k.offsetY ≤ (1 : Int) ∧ (1 : Int) < Board.corners.height - k.offsetY := by
    rw [hrow]
    decide
  exact ⟨c, k, hc, hkernels, hoverflow, hx, hy, fun o o' => Machine.count_under _ _ k hx hy o o'⟩

end Cellular
