import Cellular.Proofs.Machine.Run

/-!
# Coordinates in machine words

Boards are addressed in words, whose operations wrap around, and generations are computed on
integers.  The two agree: on a board whose cells can be numbered no operation leaves the range of a
word.

* `Grid.toInt_wrap?`, `Grid.toInt_clamp` and `Grid.inBounds_eq_onBoard` are about the three ways to
  handle a coordinate outside; `Overflow.locateWords` chooses among them.
* `Kernel.visitsWords` reads a window in words, and `Kernel.visitsWords_eq` finds it to be the
  window that `Kernel.visits` reads.
* `Board.Full.getElem?_index` looks a cell up by its number in words; `Board.Full.coords?_index`
  finds its place again.
* `Machine.countWords`, `Machine.stepWords` and `Machine.runWords` count and make generations with
  words for coordinates; `Machine.countWords_eq`, `Machine.stepWords_eq` and `Machine.runWords_eq`
  say that they are the functions on integers, and `Machine.runWords_ofNat` says so for every board
  of a usual size.

What the words cannot do is stated as hypotheses: the number of cells and the sides of the board are
numbers of words, and a window does not run over the largest word behind the last place of the
board.  The bounds are far above the sizes of boards that are stored.  Every other theorem about
counts and generations may then be read with words in the place of integers.
-/

namespace Cellular

namespace Grid

variable {i x y cols rows size : Int64} {n w h : Nat}

/-! ## Words that do not overflow

An operation on words is one on integers if the result is in range.  The lemmas take the range as a
hypothesis in integers, where it is linear arithmetic.
-/

lemma toInt_add_of_mem {a b : Int64} (hlow : -2 ^ 63 ≤ a.toInt + b.toInt)
    (hhigh : a.toInt + b.toInt < 2 ^ 63) : (a + b).toInt = a.toInt + b.toInt := by
  rw [Int64.toInt_add]
  exact Int.bmod_eq_of_le (by omega) (by omega)

lemma toInt_sub_of_mem {a b : Int64} (hlow : -2 ^ 63 ≤ a.toInt - b.toInt)
    (hhigh : a.toInt - b.toInt < 2 ^ 63) : (a - b).toInt = a.toInt - b.toInt := by
  rw [Int64.toInt_sub]
  exact Int.bmod_eq_of_le (by omega) (by omega)

lemma toInt_mul_of_mem {a b : Int64} (hlow : -2 ^ 63 ≤ a.toInt * b.toInt)
    (hhigh : a.toInt * b.toInt < 2 ^ 63) : (a * b).toInt = a.toInt * b.toInt := by
  rw [Int64.toInt_mul]
  exact Int.bmod_eq_of_le (by omega) (by omega)

lemma eq_zero_iff (hsize : size.toInt = n) : size = 0 ↔ n = 0 := by
  rw [← Int64.toInt_inj, hsize, Int64.toInt_zero]
  exact Int.natCast_eq_zero

/-! ## Coordinates outside

Words have a division that rounds toward zero, so a remainder may be negative and is moved up by the
size; this is the remainder of the division that rounds down.  No operation here can overflow for
any coordinate.
-/

/-- A remainder of a quotient toward zero is moved up where it is negative. -/
lemma emod_eq_ite_tmod (i : Int) {n : Nat} (hn : 0 < n) :
    i % n = if i.tmod n < 0 then i.tmod n + n else i.tmod n := by
  have hpos : (0 : Int) < n := by exact_mod_cast hn
  have hlow := Int.lt_tmod_of_pos i hpos
  have hhigh := Int.tmod_lt_of_pos i hpos
  have hrem : i % n = i.tmod n % n := by
    conv_lhs => rw [← Int.tmod_add_mul_tdiv i n]
    rw [Int.add_mul_emod_self_left]
  rw [hrem]
  split_ifs with hneg
  · rw [← Int.add_emod_right, Int.emod_eq_of_lt (by omega) (by omega)]
  · exact Int.emod_eq_of_lt (by omega) hhigh

lemma toInt_wrap? (hsize : size.toInt = n) (i : Int64) :
    (wrap? i size).map Int64.toInt = wrapOnto? i.toInt n := by
  rw [wrap?, wrapOnto?]
  by_cases hn : n = 0
  · rw [if_pos ((eq_zero_iff hsize).mpr hn), if_pos hn, Option.map_none]
  rw [if_neg (mt (eq_zero_iff hsize).mp hn), if_neg hn, Option.map_some, Option.some.injEq,
    emod_eq_ite_tmod i.toInt (Nat.pos_of_ne_zero hn)]
  have hmod : (i % size).toInt = i.toInt.tmod n := by rw [Int64.toInt_mod, hsize]
  have hneg : i % size < 0 ↔ i.toInt.tmod n < 0 := by
    rw [Int64.lt_iff_toInt_lt, hmod, Int64.toInt_zero]
  split_ifs with h h' h'
  · have hbound := size.toInt_lt
    have hlow := (i % size).le_toInt
    rw [toInt_add_of_mem (by omega) (by omega), hmod, hsize]
  · exact absurd (hneg.mp h) h'
  · exact absurd (hneg.mpr h') h
  · exact hmod

lemma toInt_clamp (hsize : size.toInt = n) (i : Int64) :
    (clamp i size).toInt = clampOnto i.toInt n := by
  have hbound := size.toInt_lt
  have hone : (1 : Int64).toInt = 1 := Int64.toInt_one
  have hlast : (size - 1).toInt = n - 1 := by
    rw [toInt_sub_of_mem (by omega) (by omega), hsize, hone]
  simp only [clamp, clampOnto, Int64.lt_iff_toInt_lt, hlast, Int64.toInt_zero,
    apply_ite Int64.toInt]
  split_ifs <;> omega

lemma inBounds_eq_onBoard (hcols : cols.toInt = w) (hrows : rows.toInt = h) (x y : Int64) :
    inBounds x y cols rows = (onBoard x.toInt w && onBoard y.toInt h) := by
  simp only [inBounds, onBoard, Int64.le_iff_toInt_le, Int64.lt_iff_toInt_lt, hcols, hrows,
    Int64.toInt_zero, Bool.and_assoc]

/-- Places have numbers, and numbers places, as long as the number is one of a word. -/
lemma toInt_coords? (hcols : cols.toInt = w) (hi : i.toInt = n) :
    (coords? i cols).map (fun p => (p.1.toInt, p.2.toInt))
      = (place? n w).map fun p => ((p.1 : Int), (p.2 : Int)) := by
  rw [coords?, place?]
  by_cases hw : w = 0
  · rw [if_pos ((eq_zero_iff hcols).mpr hw), if_pos hw, Option.map_none, Option.map_none]
  -- the one quotient that is no word is that of the least word by -1
  have hmin : i ≠ Int64.minValue := by
    rintro rfl
    rw [Int64.toInt_minValue] at hi
    omega
  rw [if_neg (mt (eq_zero_iff hcols).mp hw), if_neg hw, Option.map_some, Option.map_some,
    Int64.toInt_mod, Int64.toInt_div_of_ne_left _ _ hmin, hi, hcols]
  rfl

end Grid

/-! ## Policies

A policy meets a coordinate at a time, except that clipping asks for both to be inside.
-/

variable {cols rows x y : Int64} {w h : Nat}

/-- What a policy makes of a place in words: a place of the board, or nothing. -/
def Overflow.locateWords (o : Overflow) (cols rows x y : Int64) :
    Except Error (Option (Int64 × Int64)) :=
  match o with
  | .wrap =>
    match Grid.wrap? x cols, Grid.wrap? y rows with
    | some cx, some cy => .ok (some (cx, cy))
    | _, _ => .error .outOfRange
  | .border => .ok (some (Grid.clamp x cols, Grid.clamp y rows))
  | .zero => .ok (if Grid.inBounds x y cols rows then some (x, y) else none)

/-- **Every policy finds the same place** in words as in integers. -/
lemma Overflow.toInt_locateWords (o : Overflow) (hcols : cols.toInt = w) (hrows : rows.toInt = h)
    (x y : Int64) :
    (o.locateWords cols rows x y).map (Option.map fun p => (p.1.toInt, p.2.toInt))
      = o.locate w h x.toInt y.toInt := by
  cases o with
  | wrap =>
      rw [locateWords, locate, ← Grid.toInt_wrap? hcols, ← Grid.toInt_wrap? hrows]
      cases Grid.wrap? x cols with
      | none => rfl
      | some cx =>
          cases Grid.wrap? y rows with
          | none => rfl
          | some cy => rfl
  | border =>
      rw [locateWords, locate, ← Grid.toInt_clamp hcols, ← Grid.toInt_clamp hrows]
      rfl
  | zero =>
      rw [locateWords, locate, Grid.inBounds_eq_onBoard hcols hrows]
      split_ifs <;> rfl

/-! ## Windows

A coordinate of a window is computed by adding the number of the column and then subtracting the
half of the width.  The sum is the larger of the two intermediate values, and has to be a word.
-/

namespace Kernel

/-- The cells that a kernel reads around `(x, y)` from some of its places, found in words. -/
def visitsWordsFrom (k : Kernel) (cols rows x y : Int64) :
    List (Nat × Nat) → Except Error (List Visit)
  | [] => .ok []
  | (ix, iy) :: more => do
    let place ← k.overflow.locateWords cols rows
      (x + Int64.ofNat ix - Int64.ofNat k.offsetX) (y + Int64.ofNat iy - Int64.ofNat k.offsetY)
    let others ← k.visitsWordsFrom cols rows x y more
    match place with
    | some (cx, cy) => return ⟨ix, iy, cx.toInt, cy.toInt⟩ :: others
    | none => return others

/-- The cells that a kernel reads around `(x, y)`, found in words. -/
def visitsWords (k : Kernel) (cols rows x y : Int64) : Except Error (List Visit) :=
  k.visitsWordsFrom cols rows x y k.places

/-- Around `i` a window of `size` cells stays in the range of a word. -/
def Addressable (size : Nat) (i : Int64) : Prop := 0 ≤ i.toInt ∧ i.toInt + size < 2 ^ 63

/-- A coordinate of the window, whose middle is `i`. -/
lemma Addressable.toInt_window {size : Nat} {i : Int64} (hi : Addressable size i) {n : Nat}
    (hn : n < size) :
    (i + Int64.ofNat n - Int64.ofNat (size / 2)).toInt = i.toInt + n - (size / 2 : Nat) := by
  obtain ⟨hlow, hhigh⟩ := hi
  have hword : (Int64.ofNat n).toInt = n := Int64.toInt_ofNat_of_lt (by omega)
  have hmiddle : (Int64.ofNat (size / 2)).toInt = (size / 2 : Nat) :=
    Int64.toInt_ofNat_of_lt (by omega)
  have hsum : (i + Int64.ofNat n).toInt = i.toInt + n := by
    rw [Grid.toInt_add_of_mem (by omega) (by omega), hword]
  rw [Grid.toInt_sub_of_mem (by omega) (by omega), hsum, hmiddle]

/-- **A kernel reads the same cells in words as in integers**, place by place. -/
theorem visitsWords_eq (k : Kernel) (hcols : cols.toInt = w) (hrows : rows.toInt = h)
    (hx : Addressable k.width x) (hy : Addressable k.height y) :
    k.visitsWords cols rows x y = k.visits w h x.toInt y.toInt := by
  have hfrom : ∀ places : List (Nat × Nat), (∀ p ∈ places, p.1 < k.width ∧ p.2 < k.height) →
      k.visitsWordsFrom cols rows x y places = k.visitsFrom w h x.toInt y.toInt places := by
    intro places
    induction places with
    | nil => exact fun _ => rfl
    | cons p places ih =>
        intro hplaces
        obtain ⟨ix, iy⟩ := p
        obtain ⟨⟨hix, hiy⟩, hmore⟩ := List.forall_mem_cons.mp hplaces
        rw [visitsWordsFrom, visitsFrom, ih hmore, offsetX, offsetY, ← hx.toInt_window hix,
          ← hy.toInt_window hiy, ← k.overflow.toInt_locateWords hcols hrows]
        cases k.overflow.locateWords cols rows _ _ with
        | error e => rfl
        | ok place => cases place <;> rfl
  exact hfrom k.places fun p hp => mem_places hp

end Kernel

/-! ## Cells

The number of a cell is a product and a sum, neither of which is larger than the number of all
cells.
-/

namespace Board.Full

variable {b : Board} {cx cy : Nat}

/-- A cell's number does not overflow where all cells have one. -/
lemma toInt_index (hb : b.Full) (hcells : b.cells.size < 2 ^ 63) (hcols : cols.toInt = b.width)
    (hx : x.toInt = cx) (hy : y.toInt = cy) (hcx : cx < b.width) (hcy : cy < b.height) :
    (Grid.index x y cols).toInt = (cy * b.width + cx : Nat) := by
  have hnumber := hb.number_lt hcx hcy
  have hproduct : y.toInt * cols.toInt = (cy * b.width : Nat) := by rw [hy, hcols, Nat.cast_mul]
  have hrow : (y * cols).toInt = (cy * b.width : Nat) := by
    rw [Grid.toInt_mul_of_mem (by omega) (by omega), hproduct]
  rw [Grid.index, Grid.toInt_add_of_mem (by omega) (by omega), hrow, hx, Nat.cast_add]

/-- **The cell at a place is the one of its number in words.** -/
theorem getElem?_index (hb : b.Full) (hcells : b.cells.size < 2 ^ 63) (hcols : cols.toInt = b.width)
    (hx : x.toInt = cx) (hy : y.toInt = cy) (hcx : cx < b.width) (hcy : cy < b.height) :
    b.cells[(Grid.index x y cols).toInt.toNat]? = b.get? x.toInt y.toInt := by
  rw [hb.toInt_index hcells hcols hx hy hcx hcy, Int.toNat_natCast, hx, hy, hb.get?_eq hcx hcy]

/-- **The number of a cell in words determines its place.** -/
theorem coords?_index (hb : b.Full) (hcells : b.cells.size < 2 ^ 63) (hcols : cols.toInt = b.width)
    (hx : x.toInt = cx) (hy : y.toInt = cy) (hcx : cx < b.width) (hcy : cy < b.height) :
    Grid.coords? (Grid.index x y cols) cols = some (x, y) := by
  have hplace := Grid.toInt_coords? hcols (hb.toInt_index hcells hcols hx hy hcx hcy)
  rw [Grid.place?_eq_some.mpr ⟨rfl, hcx⟩, Option.map_some, Option.map_eq_some_iff] at hplace
  obtain ⟨⟨x', y'⟩, hcoords, hplace⟩ := hplace
  obtain ⟨hx', hy'⟩ := Prod.mk.inj hplace
  have hxx : x' = x := Int64.toInt_inj.mp (hx'.trans hx.symm)
  have hyy : y' = y := Int64.toInt_inj.mp (hy'.trans hy.symm)
  rw [hcoords, hxx, hyy]

end Board.Full

/-! ## Generations

Whatever a machine does with coordinates is done below in words: places are found from numbers of
cells, windows around them are read under their policies, and numbers are found from places again.
All else is left to the functions on integers.  What keeps the two together is `Board.Addressed`: as
no policy ever moves a window by more than its size, it is enough that a window fits in a word on
top of the board.
-/

/-- A full board with sides in words, around every place of which the windows of some kernels stay in
the range of a word. -/
structure Board.Addressed (b : Board) (ks : List Kernel) (cols rows : Int64) : Prop where
  full : b.Full
  cells : b.cells.size < 2 ^ 63
  cols : cols.toInt = b.width
  rows : rows.toInt = b.height
  windows : ∀ k ∈ ks, b.width + k.width ≤ 2 ^ 63 ∧ b.height + k.height ≤ 2 ^ 63

/-- Sides that fit in half a word, of the board and of the windows, are enough. -/
lemma Board.Full.addressed {b : Board} (hb : b.Full) {ks : List Kernel} (hwidth : b.width < 2 ^ 31)
    (hheight : b.height < 2 ^ 31) (hks : ∀ k ∈ ks, k.width < 2 ^ 31 ∧ k.height < 2 ^ 31) :
    b.Addressed ks (Int64.ofNat b.width) (Int64.ofNat b.height) where
  full := hb
  cells := by
    have harea : b.width * b.height < 2 ^ 31 * 2 ^ 31 := Nat.mul_lt_mul'' hwidth hheight
    rw [hb]
    omega
  cols := Int64.toInt_ofNat_of_lt (by omega)
  rows := Int64.toInt_ofNat_of_lt (by omega)
  windows k hk := by
    obtain ⟨hacross, hdown⟩ := hks k hk
    omega

namespace Machine

variable {m : Machine} {b b' : Board} {ks : List Kernel}

/-- The count of one kernel around `(x, y)`, whose window is read in words. -/
def countWords (m : Machine) (b : Board) (k : Kernel) (cols rows x y : Int64) :
    Except Error Value := do
  let visits ← k.visitsWords cols rows x y
  let sum ← m.total b k 0 visits
  return k.result.value sum

/-- The counts of some kernels around `(x, y)`, by their names. -/
def countAllWords (m : Machine) (b : Board) (cols rows x y : Int64) :
    List Kernel → Except Error (List (String × Value))
  | [] => .ok []
  | k :: more => do
    let v ← m.countWords b k cols rows x y
    let vs ← m.countAllWords b cols rows x y more
    return (k.name, v) :: vs

/-- What the rule makes of a cell with some counts around it, if there is a cell. -/
def nextRecord (m : Machine) (cell : Option Record) (counts : List (String × Value)) :
    Except Error Record :=
  match cell with
  | none => .error .outOfRange
  | some prev => do
    let f ← (Stmt.execAll m.layout m.program.body { cell := prev, prev, counts }).mapError .internal
    return clean m.layout f.cell

/-- The next record of the cell with the number `i`. -/
def stepWord (m : Machine) (b : Board) (cols rows i : Int64) : Except Error Record :=
  match Grid.coords? i cols with
  | none => .error .outOfRange
  | some (x, y) => do
    let counts ← m.countAllWords b cols rows x y m.kernels.kernels
    m.nextRecord b.cells[(Grid.index x y cols).toInt.toNat]? counts

/-- The next records of some cells, given by their numbers. -/
def stepAllWords (m : Machine) (b : Board) (cols rows : Int64) :
    List Nat → Except Error (List Record)
  | [] => .ok []
  | i :: more => do
    let r ← m.stepWord b cols rows (Int64.ofNat i)
    let rs ← m.stepAllWords b cols rows more
    return r :: rs

/-- The next generation. -/
def stepWords (m : Machine) (b : Board) (cols rows : Int64) : Except Error Board := do
  let cells ← m.stepAllWords b cols rows (List.range b.cells.size)
  return { b with cells := cells.toArray }

/-- The generation after `n` steps. -/
def runWords (m : Machine) (b : Board) (cols rows : Int64) : Nat → Except Error Board
  | 0 => .ok b
  | n + 1 => do
    let b ← m.stepWords b cols rows
    m.runWords b cols rows n

/-- **A count is the same in words as in integers**, under every policy. -/
theorem countWords_eq (m : Machine) (hb : b.Addressed ks cols rows) {k : Kernel} (hk : k ∈ ks)
    {cx cy : Nat} (hx : x.toInt = cx) (hy : y.toInt = cy) (hcx : cx < b.width)
    (hcy : cy < b.height) : m.countWords b k cols rows x y = m.count b k cx cy := by
  obtain ⟨hwidth, hheight⟩ := hb.windows k hk
  have hacross : Kernel.Addressable k.width x := ⟨by omega, by omega⟩
  have hdown : Kernel.Addressable k.height y := ⟨by omega, by omega⟩
  rw [countWords, k.visitsWords_eq hb.cols hb.rows hacross hdown, hx, hy, count]

lemma countAllWords_eq (m : Machine) (hb : b.Addressed ks cols rows) {cx cy : Nat}
    (hx : x.toInt = cx) (hy : y.toInt = cy) (hcx : cx < b.width) (hcy : cy < b.height) :
    ∀ {kernels : List Kernel}, kernels ⊆ ks →
      m.countAllWords b cols rows x y kernels = m.countAll b cx cy kernels
  | [], _ => rfl
  | k :: more, hkernels => by
      obtain ⟨hk, hmore⟩ := List.cons_subset.mp hkernels
      rw [countAllWords, countAll, m.countWords_eq hb hk hx hy hcx hcy,
        m.countAllWords_eq hb hx hy hcx hcy hmore]

lemma stepCell_eq (m : Machine) (b : Board) (x y : Int) :
    m.stepCell b x y = m.counts b x y >>= m.nextRecord (b.get? x y) := rfl

/-- A cell that is found by its number has the next record of its place. -/
lemma stepWord_index (hb : b.Addressed m.kernels.kernels cols rows) {cx cy : Nat}
    (hx : x.toInt = cx) (hy : y.toInt = cy) (hcx : cx < b.width) (hcy : cy < b.height) :
    m.stepWord b cols rows (Grid.index x y cols) = m.stepCell b cx cy := by
  have hplace := hb.full.coords?_index hb.cells hb.cols hx hy hcx hcy
  have hcell := hb.full.getElem?_index hb.cells hb.cols hx hy hcx hcy
  rw [hx, hy] at hcell
  simp only [stepWord, hplace, hcell, m.countAllWords_eq hb hx hy hcx hcy (List.Subset.refl _),
    stepCell_eq, counts]

lemma stepAllWords_eq (hb : b.Addressed m.kernels.kernels cols rows) :
    ∀ {numbers : List Nat}, (∀ i ∈ numbers, i < b.cells.size) →
      m.stepAllWords b cols rows numbers = m.stepCells b numbers
  | [], _ => rfl
  | i :: numbers, hnumbers => by
      obtain ⟨hi, hmore⟩ := List.forall_mem_cons.mp hnumbers
      obtain ⟨cx, cy, hplace, hcx, hcy⟩ := hb.full.place? hi
      obtain ⟨hnumber, -⟩ := Grid.place?_eq_some.mp hplace
      have hcells := hb.cells
      have hcols := hb.cols ▸ cols.toInt_lt
      have hrows := hb.rows ▸ rows.toInt_lt
      have hx : (Int64.ofNat cx).toInt = cx := Int64.toInt_ofNat_of_lt (by omega)
      have hy : (Int64.ofNat cy).toInt = cy := Int64.toInt_ofNat_of_lt (by omega)
      have hword : Int64.ofNat i = Grid.index (Int64.ofNat cx) (Int64.ofNat cy) cols := by
        rw [← Int64.toInt_inj, hb.full.toInt_index hb.cells hb.cols hx hy hcx hcy, ← hnumber]
        exact Int64.toInt_ofNat_of_lt (by omega)
      rw [stepAllWords, stepCells, hplace, hword, stepWord_index hb hx hy hcx hcy,
        stepAllWords_eq hb hmore]

/-- **A generation is the same in words as in integers.** -/
theorem stepWords_eq (hb : b.Addressed m.kernels.kernels cols rows) :
    m.stepWords b cols rows = m.step b := by
  rw [stepWords, step, stepAllWords_eq hb fun i hi => List.mem_range.mp hi]

/-- A step leaves the numbers of the cells as they are. -/
lemma addressed_step (hb : b.Addressed ks cols rows) (h : m.step b = .ok b') :
    b'.Addressed ks cols rows := by
  simp only [step, bind_eq_ok, pure_eq_ok] at h
  obtain ⟨rs, hrs, rfl⟩ := h
  have hsize : rs.toArray.size = b.cells.size := by
    rw [List.size_toArray, (stepCells_eq_ok hrs).1, List.length_range]
  exact ⟨hsize.trans hb.full, hsize ▸ hb.cells, hb.cols, hb.rows, hb.windows⟩

/-- **A run is the same in words as in integers**: the same board, or the same error. -/
theorem runWords_eq (hb : b.Addressed m.kernels.kernels cols rows) (n : Nat) :
    m.runWords b cols rows n = m.run b n := by
  induction n generalizing b with
  | zero => rfl
  | succ n ih =>
      rw [runWords, run, stepWords_eq hb]
      cases hstep : m.step b with
      | error e => rfl
      | ok b' => exact ih (addressed_step hb hstep)

/-- Boards of usual sizes are run in words from their own sides. -/
theorem runWords_ofNat (hb : b.Full) (hwidth : b.width < 2 ^ 31) (hheight : b.height < 2 ^ 31)
    (hks : ∀ k ∈ m.kernels.kernels, k.width < 2 ^ 31 ∧ k.height < 2 ^ 31) (n : Nat) :
    m.runWords b (Int64.ofNat b.width) (Int64.ofNat b.height) n = m.run b n :=
  runWords_eq (hb.addressed hwidth hheight hks) n

end Machine

end Cellular
