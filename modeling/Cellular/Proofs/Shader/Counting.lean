import Cellular.Proofs.Machine.Run
import Cellular.Proofs.Shader.Assembly
import Cellular.Proofs.Shader.Silence

/-!
# Emitted counting

A shader counts the neighbours of a cell by its own means: it closes the board onto itself by
rounding a quotient down, clamps coordinates with a built-in function, and leaves places out with a
jump.  The rule takes remainders and compares.  Both read the same weights and the same cells, in
the same order.

* `trace_wrapFunction`: rounding a quotient down gives the remainder.
* `Serves` says what a counting function may call; `serves_linked`: in a generated shader it does.
* `Serves.trace_visitCode` is one place of a kernel, and `Serves.trace_countFunction` all of them.
* `Kernel.trace_visits`: what the counting function of a kernel fetches in a generated shader.

The proof goes up through the text of the function, from a coordinate to a place of the kernel, from
a place to a column, and from columns to the whole.  Loops are handled by `rounds_done`, with an
invariant that says of the variables no more than that the count is some float: what is added up may
be anything here, and only the fetches are collected.  The numbers of a shader appear through
`Numbers.Exact` alone, so the result holds of every device whose words and quotients are good enough
for the sizes at hand.
-/

namespace Cellular

open Shader

variable {N : Numbers}

namespace Shader

/-! ## The functions that counting calls

The closing function subtracts the size as often as it goes into the coordinate, which it finds by
rounding a quotient of floats down.  For an exact quotient this leaves the remainder; a rounded one
could be off by one near the multiples of the size.
-/

section Linking

variable {s : Stage} {calls : Functions N}

/-- Reading a cell of the board fetches that cell. -/
lemma trace_cellAt (hlanguage : ∀ name ∈ languageNames, calls name = s.language name) {x y : Int}
    {r : Record} (hcell : s.board.texel? x y = some r) :
    cellAt.trace s.globals calls [.int x, .int y]
      = .done (.ints [r.r.toNat, r.g.toNat, r.b.toNat, r.a.toNat]) [.cell x y] := by
  have hplace : calls "ivec2" [.int x, .int y] = .done (.ints [x, y]) [] := by
    rw [hlanguage "ivec2" (by decide)]
    rfl
  have hfetch : calls "texelFetch" [.board, .ints [x, y], .int 0]
      = .done (.ints [r.r.toNat, r.g.toNat, r.b.toNat, r.a.toNat]) [.cell x y] := by
    rw [hlanguage "texelFetch" (by decide)]
    change Option.map _ (s.board.texel? x y) = _
    rw [hcell]
    rfl
  have hconvert : calls "ivec4" [.ints [r.r.toNat, r.g.toNat, r.b.toNat, r.a.toNat]]
      = .done (.ints [r.r.toNat, r.g.toNat, r.b.toNat, r.a.toNat]) [] := by
    rw [hlanguage "ivec4" (by decide)]
    rfl
  refine trace_function rfl (traceAll_result ?_)
  have hargs : Term.traces calls (("y", .int y) :: ("x", .int x) :: s.globals)
      [.name "x", .name "y"] = .done [.int x, .int y] [] :=
    traces_cons (trace_name rfl) (traces_cons (trace_name rfl) traces_nil)
  exact trace_call (traces_cons (trace_call (traces_cons (trace_name rfl)
    (traces_cons (trace_call hargs hplace) (traces_cons (trace_int 0) traces_nil))) hfetch)
    traces_nil) hconvert

/-- **Closing the board onto itself gives the remainder**, where words hold the numbers on the way
and quotients are exact. -/
lemma trace_wrapFunction {bound : Nat} (hN : N.Exact bound)
    (hlanguage : ∀ name ∈ languageNames, calls name = s.language name) {i : Int} {size : Nat}
    (hsize : 0 < size) (hlow : (size : Int) ≤ i + bound) (hhigh : i ≤ bound)
    (hbound : size ≤ bound) :
    wrapFunction.trace s.globals calls [.int i, .int size] = .done (.int (i % size)) [] := by
  have hquotient : N.truncate (N.floor (N.combine .div (N.ofInt i) (N.ofInt size))) = i / size := by
    rw [hN.quotient i size (by omega) hsize hbound, Rat.floor_intCast_div_natCast]
  have hsplit : size * (i / size) = i - i % size := by
    have := Int.emod_add_mul_ediv i size
    omega
  have hpos : (size : Int) ≠ 0 := by omega
  have hnonneg := Int.emod_nonneg i hpos
  have hlt := Int.emod_lt_of_pos i (show (0 : Int) < size by omega)
  have hword : N.word (i / size) = i / size :=
    hN.word _ ((Int.natAbs_ediv_le_natAbs i size).trans (by omega))
  have hproduct : N.word (size * (i / size)) = i - i % size := by
    rw [hsplit]
    exact hN.word _ (by omega)
  have hrest : N.word (i - (i - i % size)) = i % size := by
    rw [sub_sub_cancel]
    exact hN.word _ (by omega)
  have hfloat : ∀ n : Int, calls "float" [.int n] = .done (.real (N.ofInt n)) [] := fun n => by
    rw [hlanguage "float" (by decide)]
    rfl
  have hfloor : ∀ r : N.Real, calls "floor" [.real r] = .done (.real (N.floor r)) [] := fun r => by
    rw [hlanguage "floor" (by decide)]
    rfl
  have hint : ∀ r : N.Real, calls "int" [.real r] = .done (.int (N.word (N.truncate r))) [] :=
    fun r => by
      rw [hlanguage "int" (by decide)]
      rfl
  refine trace_function rfl (traceAll_result ?_)
  have hi : (Term.name "i").trace calls (("size", .int size) :: ("i", .int i) :: s.globals)
      = .done (.int i) [] := trace_name rfl
  have hn : (Term.name "size").trace calls (("size", .int size) :: ("i", .int i) :: s.globals)
      = .done (.int size) [] := trace_name rfl
  have hdiv : (Term.op .div (.call "float" [.name "i"]) (.call "float" [.name "size"])).trace calls
      (("size", .int size) :: ("i", .int i) :: s.globals)
        = .done (.real (N.combine .div (N.ofInt i) (N.ofInt size))) [] :=
    trace_binary (trace_call (traces_cons hi traces_nil) (hfloat i))
      (trace_call (traces_cons hn traces_nil) (hfloat size)) rfl rfl
  have hwhole := trace_call (traces_cons (trace_call (traces_cons hdiv traces_nil) (hfloor _))
    traces_nil) (hint _)
  rw [hquotient, hword] at hwhole
  refine trace_ints hi (trace_ints hn hwhole rfl) ?_
  rw [hproduct]
  exact congrArg (fun n => some (Item.int n)) hrest

end Linking

end Shader

/-- **The texels of the weight table are its weights.** -/
lemma KernelSet.Compiled.texel?_eq {cell : Ty} {ks : KernelSet} (h : ks.Compiled cell) {k : Kernel}
    (hk : k ∈ ks.kernels) {x y : Nat} (hx : x < k.width) (hy : y < k.height) :
    ks.texel? x y k.index = ks.weight? k.index x y := by
  obtain ⟨hwidth, hheight⟩ := h.size_le hk
  have hindex : k.index < ks.kernels.length :=
    (List.getElem?_eq_some_iff.mp (h.getElem?_index hk)).1
  have hinside : ((0 : Int) ≤ x ∧ (x : Int) < ks.width) ∧ ((0 : Int) ≤ y ∧ (y : Int) < ks.height) ∧
      (0 : Int) ≤ k.index ∧ (k.index : Int) < ks.kernels.length := by omega
  have hplace : (((k.index : Int) * ks.height + y) * ks.width + x).toNat
      = ks.width * ks.height * k.index + ks.width * y + x := by
    have hcast : ((k.index : Int) * ks.height + y) * ks.width + x
        = ((ks.width * ks.height * k.index + ks.width * y + x : Nat) : Int) := by
      push_cast
      ring
    rw [hcast, Int.toNat_natCast]
  rw [KernelSet.texel?, if_pos hinside, hplace, KernelSet.weight?]

namespace Shader

/-! ## A visited cell

`Serves` is the contract between a counting function and the functions in front of it.  Below it
stands the code of one place of a kernel: two coordinates, the policy, two fetches and a sum.  A
place that is left out ends the round before anything is fetched.
-/

/-- No coordinate that counting comes across is larger, and none is below its negative: the sizes of
the board and of the kernels together. -/
def Stage.reach (s : Stage) : Nat :=
  max (s.board.width + s.kernels.width) (s.board.height + s.kernels.height)

/-- What a counting function may call. -/
structure Serves (s : Stage) (calls : Functions N) (l : Layout) : Prop where
  language : ∀ name ∈ languageNames, calls name = s.language name
  cellAt : ∀ x y : Int, (0 ≤ x ∧ x < s.board.width) → (0 ≤ y ∧ y < s.board.height) →
    ∃ bytes : List Int, bytes.length = 4 ∧
      calls cellAtName [.int x, .int y] = .done (.ints bytes) [.cell x y]
  wrap : (∃ k ∈ s.kernels.kernels, k.overflow = .wrap) → ∀ (i : Int) (size : Nat), 0 < size →
    (size : Int) ≤ i + s.reach → i ≤ s.reach → size ≤ s.reach →
      calls wrapName [.int i, .int size] = .done (.int (i % size)) []
  getters : ∀ d ∈ l.fields, ∀ bytes : List Int, bytes.length = 4 →
    ∃ v : Item N, calls (getterName d.name) [.ints bytes] = .done v [] ∧ v.Of d.type

/-- The variables of a counting function between two columns of its kernel. -/
def Stage.countVars (s : Stage) (c : N.Real) : Items N := ("count", .real c) :: s.globals

/-- The variables of a counting function at a place of its kernel, with the coordinates of a
cell. -/
def Stage.visitVars (s : Stage) (c : N.Real) (ix iy : Nat) (cx cy : Int) : Items N :=
  ("cy", .int cy) :: ("cx", .int cx) :: ("iy", .int iy) :: ("ix", .int ix) :: s.countVars c

section Visit

variable {s : Stage} {calls : Functions N} {l : Layout} {k : Kernel} {c : N.Real} {ix iy : Nat}
  {cx cy : Int}

/-- A coordinate of a cell, before the policy of the kernel. -/
lemma trace_coordinate {vars : Items N} {axis counter : String} {a b : Int} {i offset : Nat}
    {place : Int} (hplace : (Term.member (.name coordName) axis).trace calls vars
      = .done (.int place) [])
    (hcounter : vars.lookup counter = some (.int i)) (ha : N.word (place + i) = a)
    (hb : N.word (a - offset) = b) :
    (Term.op .sub (.op .add (.member (.name coordName) axis) (.name counter)) (.int offset)).trace
      calls vars = .done (.int b) [] := by
  refine trace_ints (trace_ints hplace (trace_name hcounter) rfl) (trace_int _) ?_
  rw [ha]
  exact congrArg (fun n => some (Item.int n)) hb

lemma trace_sizeX : (sizeTerm "x").trace calls (s.visitVars c ix iy cx cy)
    = .done (.int s.board.width) [] :=
  trace_member (trace_name rfl) rfl rfl

lemma trace_sizeY : (sizeTerm "y").trace calls (s.visitVars c ix iy cx cy)
    = .done (.int s.board.height) [] :=
  trace_member (trace_name rfl) rfl rfl

lemma trace_cx : (Term.name "cx").trace calls (s.visitVars c ix iy cx cy) = .done (.int cx) [] :=
  trace_name rfl

lemma trace_cy : (Term.name "cy").trace calls (s.visitVars c ix iy cx cy) = .done (.int cy) [] :=
  trace_name rfl

/-- Coordinates that are no further from the board than a kernel reaches. -/
structure Stage.Near (s : Stage) (cx cy : Int) : Prop where
  width : 0 < s.board.width
  height : 0 < s.board.height
  left : (s.board.width : Int) ≤ cx + s.reach
  right : cx ≤ s.reach
  top : (s.board.height : Int) ≤ cy + s.reach
  bottom : cy ≤ s.reach

lemma Stage.width_le_reach (s : Stage) : s.board.width ≤ s.reach := by
  rw [Stage.reach]
  omega

lemma Stage.height_le_reach (s : Stage) : s.board.height ≤ s.reach := by
  rw [Stage.reach]
  omega

/-- Closing the board onto itself, for both coordinates. -/
lemma Serves.trace_wrap (h : Serves s calls l)
    (hwraps : ∃ k ∈ s.kernels.kernels, k.overflow = .wrap) (hnear : s.Near cx cy)
    (rest : List Code) :
    Code.traceAll calls (overflowCode .wrap ++ rest) (s.visitVars c ix iy cx cy)
      = Code.traceAll calls rest
          (s.visitVars c ix iy (cx % s.board.width) (cy % s.board.height)) := by
  have hwrap := h.wrap hwraps
  have hX : (Code.set (.name "cx") (.call wrapName [.name "cx", sizeTerm "x"])).trace calls
      (s.visitVars c ix iy cx cy)
        = .done (.next (s.visitVars c ix iy (cx % s.board.width) cy)) [] :=
    trace_assign (trace_call (traces_cons trace_cx (traces_cons trace_sizeX traces_nil))
      (hwrap cx _ hnear.width hnear.left hnear.right s.width_le_reach)) rfl rfl rfl
  have hY : (Code.set (.name "cy") (.call wrapName [.name "cy", sizeTerm "y"])).trace calls
      (s.visitVars c ix iy (cx % s.board.width) cy)
        = .done (.next (s.visitVars c ix iy (cx % s.board.width) (cy % s.board.height))) [] :=
    trace_assign (trace_call (traces_cons trace_cy (traces_cons trace_sizeY traces_nil))
      (hwrap cy _ hnear.height hnear.top hnear.bottom s.height_le_reach)) rfl rfl rfl
  exact (traceAll_step hX).trans (traceAll_step hY)

/-- The nearest cell of the board, for both coordinates. -/
lemma Serves.trace_border (h : Serves s calls l) (hN : N.Exact s.reach) (hw : 0 < s.board.width)
    (hh : 0 < s.board.height) (rest : List Code) :
    Code.traceAll calls (overflowCode .border ++ rest) (s.visitVars c ix iy cx cy)
      = Code.traceAll calls rest (s.visitVars c ix iy (Grid.clampOnto cx s.board.width)
          (Grid.clampOnto cy s.board.height)) := by
  have hclamp : ∀ (i : Int) (size : Nat), 0 < size →
      calls "clamp" [.int i, .int 0, .int (size - 1)]
        = .done (.int (Grid.clampOnto i size)) [] := by
    intro i size hsize
    have hmin : min (max i 0) ((size : Int) - 1) = Grid.clampOnto i size := by
      rw [Grid.clampOnto]
      omega
    rw [h.language "clamp" (by decide), ← hmin]
    rfl
  have hlast : ∀ size ≤ s.reach, 0 < size → N.word ((size : Int) - 1) = size - 1 :=
    fun size hle hpos => hN.word _ (by omega)
  have hlastX : (Term.op .sub (sizeTerm "x") (.int 1)).trace calls (s.visitVars c ix iy cx cy)
      = .done (.int (s.board.width - 1)) [] :=
    trace_ints trace_sizeX (trace_int 1)
      (congrArg (fun n => some (Item.int n)) (hlast _ s.width_le_reach hw))
  have hlastY : (Term.op .sub (sizeTerm "y") (.int 1)).trace calls
      (s.visitVars c ix iy (Grid.clampOnto cx s.board.width) cy)
        = .done (.int (s.board.height - 1)) [] :=
    trace_ints trace_sizeY (trace_int 1)
      (congrArg (fun n => some (Item.int n)) (hlast _ s.height_le_reach hh))
  have hX : (Code.set (.name "cx") (.call "clamp" [.name "cx", .int 0,
      .op .sub (sizeTerm "x") (.int 1)])).trace calls (s.visitVars c ix iy cx cy)
        = .done (.next (s.visitVars c ix iy (Grid.clampOnto cx s.board.width) cy)) [] :=
    trace_assign (trace_call (traces_cons trace_cx (traces_cons (trace_int 0)
      (traces_cons hlastX traces_nil))) (hclamp cx _ hw)) rfl rfl rfl
  have hY : (Code.set (.name "cy") (.call "clamp" [.name "cy", .int 0,
      .op .sub (sizeTerm "y") (.int 1)])).trace calls
        (s.visitVars c ix iy (Grid.clampOnto cx s.board.width) cy)
        = .done (.next (s.visitVars c ix iy (Grid.clampOnto cx s.board.width)
            (Grid.clampOnto cy s.board.height))) [] :=
    trace_assign (trace_call (traces_cons trace_cy (traces_cons (trace_int 0)
      (traces_cons hlastY traces_nil))) (hclamp cy _ hh)) rfl rfl rfl
  exact (traceAll_step hX).trans (traceAll_step hY)

/-- The test for cells outside of the board. -/
lemma trace_zero (rest : List Code) :
    Code.traceAll calls (overflowCode .zero ++ rest) (s.visitVars c ix iy cx cy)
      = if Grid.onBoard cx s.board.width && Grid.onBoard cy s.board.height then
          Code.traceAll calls rest (s.visitVars c ix iy cx cy)
        else .done (.skip (s.visitVars c ix iy cx cy)) [] := by
  have hbelow : ∀ {name : String} {i : Int},
      (Term.name name).trace calls (s.visitVars c ix iy cx cy) = .done (.int i) [] →
      (Term.op .lt (.name name) (.int 0)).trace calls (s.visitVars c ix iy cx cy)
        = .done (.bool (i < 0)) [] := fun h => trace_ints h (trace_int 0) rfl
  have habove : ∀ {name axis : String} {i n : Int},
      (Term.name name).trace calls (s.visitVars c ix iy cx cy) = .done (.int i) [] →
      (sizeTerm axis).trace calls (s.visitVars c ix iy cx cy) = .done (.int n) [] →
      (Term.op .ge (.name name) (sizeTerm axis)).trace calls (s.visitVars c ix iy cx cy)
        = .done (.bool (n ≤ i)) [] := fun h hsize => trace_ints h hsize rfl
  have htest := trace_or (trace_or (trace_or (hbelow trace_cx) (habove trace_cx trace_sizeX))
    (hbelow trace_cy)) (habove trace_cy trace_sizeY)
  have hon : (Grid.onBoard cx s.board.width && Grid.onBoard cy s.board.height)
      = !(decide (cx < 0) || decide ((s.board.width : Int) ≤ cx) || decide (cy < 0)
        || decide ((s.board.height : Int) ≤ cy)) := by
    rw [Bool.eq_iff_iff]
    simp [Grid.onBoard]
    omega
  rw [hon]
  generalize (decide (cx < 0) || decide ((s.board.width : Int) ≤ cx) || decide (cy < 0)
    || decide ((s.board.height : Int) ≤ cy)) = outside at htest
  cases outside with
  | false => exact traceAll_step (by simp [Code.trace, htest])
  | true => simp [overflowCode, Code.traceAll, Code.trace, htest, Ending.leave, Items.leave]

/-- **The policy of a kernel moves a cell onto the board or leaves it out**, as it does for the
rule. -/
lemma Serves.trace_overflowCode (h : Serves s calls l) (hN : N.Exact s.reach)
    (hk : k ∈ s.kernels.kernels) (hnear : s.Near cx cy) {place : Option (Int × Int)}
    (hplace : k.overflow.locate s.board.width s.board.height cx cy = .ok place) (rest : List Code) :
    Code.traceAll calls (overflowCode k.overflow ++ rest) (s.visitVars c ix iy cx cy)
      = place.elim (.done (.skip (s.visitVars c ix iy cx cy)) []) fun p =>
          Code.traceAll calls rest (s.visitVars c ix iy p.1 p.2) := by
  cases hoverflow : k.overflow with
  | wrap =>
      rw [hoverflow, Overflow.locate, Grid.wrapOnto?, Grid.wrapOnto?, if_neg hnear.width.ne',
        if_neg hnear.height.ne'] at hplace
      cases hplace
      exact h.trace_wrap ⟨k, hk, hoverflow⟩ hnear rest
  | border =>
      rw [hoverflow] at hplace
      cases hplace
      exact h.trace_border hN hnear.width hnear.height rest
  | zero =>
      rw [hoverflow] at hplace
      cases hplace
      rw [trace_zero]
      split_ifs <;> rfl

/-- The weight of a place is fetched in the layer of the kernel. -/
lemma Serves.trace_weight (h : Serves s calls l) (hks : s.kernels.Compiled l.cellType)
    (hk : k ∈ s.kernels.kernels) (hix : ix < k.width) (hiy : iy < k.height) :
    (Term.member (.call "texelFetch" [.name weightsName,
      .call "ivec3" [.name "ix", .name "iy", .int k.index], .int 0]) "x").trace calls
        (s.visitVars c ix iy cx cy)
      = .done (.real (N.ofSingle (k.entry ix iy))) [.weight ix iy k.index] := by
  have hplace : calls "ivec3" [.int ix, .int iy, .int k.index]
      = .done (.ints [ix, iy, k.index]) [] := by
    rw [h.language "ivec3" (by decide)]
    rfl
  have hfetch : calls "texelFetch" [.weights, .ints [ix, iy, k.index], .int 0]
      = .done (.reals [N.ofSingle (k.entry ix iy), N.ofInt 0, N.ofInt 0, N.ofInt 1])
          [.weight ix iy k.index] := by
    have htexel : s.kernels.texel? ix iy k.index = some (k.entry ix iy) :=
      (hks.texel?_eq hk hix hiy).trans (hks.weight?_eq hk hix hiy)
    rw [h.language "texelFetch" (by decide)]
    change Option.map _ (s.kernels.texel? ix iy k.index) = _
    rw [htexel]
    rfl
  have hcoordinates : Term.traces calls (s.visitVars c ix iy cx cy)
      [.name "ix", .name "iy", .int k.index] = .done [.int ix, .int iy, .int k.index] [] :=
    traces_cons (trace_name rfl)
      (traces_cons (trace_name rfl) (traces_cons (trace_int _) traces_nil))
  exact trace_member (trace_call (traces_cons (trace_name rfl) (traces_cons
    (trace_call hcoordinates hplace) (traces_cons (trace_int 0) traces_nil))) hfetch) rfl rfl

/-- The variables behind the policy of a kernel, when a weight and a cell are fetched. -/
def Stage.cellVars (s : Stage) (c : N.Real) (ix iy : Nat) (cx cy : Int) (m : N.Real)
    (bytes : List Int) : Items N :=
  (cellName, .ints bytes) :: ("mult", .real m) :: s.visitVars c ix iy cx cy

/-- The value of a cell fetches nothing, and is added up with its weight. -/
lemma Serves.trace_sum (h : Serves s calls l) (hks : s.kernels.Compiled l.cellType)
    (hk : k ∈ s.kernels.kernels) {value : Term} (hvalue : k.value.toTerm s.kernels = .ok value)
    {m : N.Real} {bytes : List Int} (hbytes : bytes.length = 4) :
    ∃ c' v, Code.traceAll calls
      [.declare .float "value" (.call "float" [value]),
        .assign (.name "count") (.update .add) (.op .mul (.name "mult") (.name "value"))]
      (s.cellVars c ix iy cx cy m bytes)
      = .done (.next (("value", .real v) :: s.cellVars c' ix iy cx cy m bytes)) [] := by
  have hchecked := hks.checked k hk
  have hviews : Views s calls (s.cellVars c ix iy cx cy m bytes) l :=
    ⟨⟨bytes, hbytes, rfl⟩, h.getters, h.language⟩
  obtain ⟨a, ha, haOf⟩ := Expr.trace_toTerm hviews (fun k' hk' => (hks.checked k' hk').name_ne_cell)
    hchecked.typed hchecked.spelled hvalue
  obtain ⟨r, hr⟩ := haOf.toFloat s
  rw [← h.language "float" (by decide)] at hr
  have hfloat : (Code.declare .float "value" (.call "float" [value])).trace calls
      (s.cellVars c ix iy cx cy m bytes)
        = .done (.next (("value", .real r) :: s.cellVars c ix iy cx cy m bytes)) [] :=
    trace_declare (trace_call (traces_cons ha traces_nil) hr)
  have hproduct : (Term.op .mul (.name "mult") (.name "value")).trace calls
      (("value", .real r) :: s.cellVars c ix iy cx cy m bytes)
        = .done (.real (N.combine .mul m r)) [] :=
    trace_binary (trace_name rfl) (trace_name rfl) rfl rfl
  have hadd : (Code.assign (.name "count") (.update .add) (.op .mul (.name "mult")
      (.name "value"))).trace calls (("value", .real r) :: s.cellVars c ix iy cx cy m bytes)
        = .done (.next (("value", .real r) ::
            s.cellVars (N.combine .add c (N.combine .mul m r)) ix iy cx cy m bytes)) [] :=
    trace_assign hproduct rfl rfl rfl
  refine ⟨N.combine .add c (N.combine .mul m r), r, traceAll_cons hfloat (traceAll_cons hadd ?_)⟩
  rw [Code.traceAll, Traced.pure_eq]

/-- The code behind the policy of a kernel: the weight of the place and the cell are fetched, and
the value of the cell is added up. -/
lemma Serves.trace_weighed (h : Serves s calls l) (hks : s.kernels.Compiled l.cellType)
    (hk : k ∈ s.kernels.kernels) (hix : ix < k.width) (hiy : iy < k.height)
    (hx : 0 ≤ cx ∧ cx < s.board.width) (hy : 0 ≤ cy ∧ cy < s.board.height) {value : Term}
    (hvalue : k.value.toTerm s.kernels = .ok value) :
    ∃ c' m v bytes, Code.traceAll calls
      [.declare .float "mult" (.member (.call "texelFetch" [.name weightsName,
          .call "ivec3" [.name "ix", .name "iy", .int k.index], .int 0]) "x"),
        .declare .ivec4 cellName (.call cellAtName [.name "cx", .name "cy"]),
        .declare .float "value" (.call "float" [value]),
        .assign (.name "count") (.update .add) (.op .mul (.name "mult") (.name "value"))]
      (s.visitVars c ix iy cx cy)
      = .done (.next (("value", .real v) :: s.cellVars c' ix iy cx cy m bytes))
          [.weight ix iy k.index, .cell cx cy] := by
  obtain ⟨bytes, hbytes, hcell⟩ := h.cellAt cx cy hx hy
  have hargs : Term.traces calls (("mult", .real (N.ofSingle (k.entry ix iy))) ::
      s.visitVars c ix iy cx cy) [.name "cx", .name "cy"] = .done [.int cx, .int cy] [] :=
    traces_cons (trace_name rfl) (traces_cons (trace_name rfl) traces_nil)
  have hread : (Code.declare .ivec4 cellName (.call cellAtName [.name "cx", .name "cy"])).trace
      calls (("mult", .real (N.ofSingle (k.entry ix iy))) :: s.visitVars c ix iy cx cy)
        = .done (.next (s.cellVars c ix iy cx cy (N.ofSingle (k.entry ix iy)) bytes))
            [.cell cx cy] :=
    trace_declare (trace_call hargs hcell)
  obtain ⟨c', v, hsum⟩ := h.trace_sum hks hk hvalue hbytes
  exact ⟨c', _, v, bytes, traceAll_cons (trace_declare (h.trace_weight hks hk hix hiy))
    (traceAll_cons hread hsum)⟩

/-- The place that a shader computes lies on a board with cells. -/
structure Stage.Placed (s : Stage) : Prop where
  column : 0 ≤ s.x ∧ s.x < s.board.width
  row : 0 ≤ s.y ∧ s.y < s.board.height

/-- What is fetched at a place of a kernel: its weight, and the cell that it stands for if there is
one. -/
def Stage.fetchesAt (s : Stage) (k : Kernel) (ix iy : Nat) : List Fetch :=
  match k.overflow.locate s.board.width s.board.height (s.x + ix - k.offsetX)
      (s.y + iy - k.offsetY) with
  | .ok (some (cx, cy)) => [.weight ix iy k.index, .cell cx cy]
  | _ => []

/-- **One place of a kernel**: what the rule reads there is fetched, and nothing else. -/
theorem Serves.trace_visitCode (h : Serves s calls l) (hN : N.Exact s.reach)
    (hks : s.kernels.Compiled l.cellType) (hk : k ∈ s.kernels.kernels) (hs : s.Placed)
    (hix : ix < k.width) (hiy : iy < k.height) {value : Term}
    (hvalue : k.value.toTerm s.kernels = .ok value) (c : N.Real) :
    ∃ e c', Code.traceAll calls (visitCode k value)
        (("iy", .int iy) :: ("ix", .int ix) :: s.countVars c) = .done e (s.fetchesAt k ix iy) ∧
      e.Continues (("ix", .int ix) :: s.countVars c).length
        (("ix", .int ix) :: s.countVars c') := by
  obtain ⟨hwidth, hheight⟩ := hks.size_le hk
  have hreach : s.board.width + s.kernels.width ≤ s.reach ∧
      s.board.height + s.kernels.height ≤ s.reach := by
    simp only [Stage.reach]
    omega
  obtain ⟨hx, hy⟩ := hs
  have hoffsets : k.offsetX ≤ k.width ∧ k.offsetY ≤ k.height := by
    simp only [Kernel.offsetX, Kernel.offsetY]
    omega
  have hnear : s.Near (s.x + ix - k.offsetX) (s.y + iy - k.offsetY) := by
    constructor <;> omega
  have hcx : (Code.declare .int "cx" (.op .sub (.op .add (.member (.name coordName) "x")
      (.name "ix")) (.int k.offsetX))).trace calls
        (("iy", .int iy) :: ("ix", .int ix) :: s.countVars c)
      = .done (.next (("cx", .int (s.x + ix - k.offsetX)) :: ("iy", .int iy) :: ("ix", .int ix) ::
          s.countVars c)) [] :=
    trace_declare (trace_coordinate (trace_member (trace_name rfl) rfl rfl) rfl
      (hN.word _ (by omega)) (hN.word _ (by omega)))
  have hcy : (Code.declare .int "cy" (.op .sub (.op .add (.member (.name coordName) "y")
      (.name "iy")) (.int k.offsetY))).trace calls
        (("cx", .int (s.x + ix - k.offsetX)) :: ("iy", .int iy) :: ("ix", .int ix) :: s.countVars c)
      = .done (.next (s.visitVars c ix iy (s.x + ix - k.offsetX) (s.y + iy - k.offsetY))) [] :=
    trace_declare (trace_coordinate (trace_member (trace_name rfl) rfl rfl) rfl
      (hN.word _ (by omega)) (hN.word _ (by omega)))
  obtain ⟨place, hplace, hon⟩ := k.overflow.locate_onBoard hnear.width hnear.height
    (s.x + ix - k.offsetX) (s.y + iy - k.offsetY)
  have hcode : Code.traceAll calls (visitCode k value)
      (("iy", .int iy) :: ("ix", .int ix) :: s.countVars c) = _ :=
    (traceAll_step hcx).trans ((traceAll_step hcy).trans
      (h.trace_overflowCode hN hk hnear hplace _))
  rw [hcode, Stage.fetchesAt, hplace]
  cases place with
  | none => exact ⟨_, c, rfl, _, .inr rfl, rfl⟩
  | some p =>
      obtain ⟨cx, cy⟩ := p
      obtain ⟨hcolumn, hrow⟩ := hon cx cy rfl
      obtain ⟨c', m, v, bytes, hweighed⟩ :=
        h.trace_weighed (c := c) hks hk hix hiy hcolumn hrow hvalue
      exact ⟨_, c', hweighed, _, .inl rfl, rfl⟩

end Visit

section Counting

variable {s : Stage} {calls : Functions N} {l : Layout} {k : Kernel}

/-- One column of a kernel. -/
lemma Serves.trace_column (h : Serves s calls l) (hN : N.Exact s.reach)
    (hks : s.kernels.Compiled l.cellType) (hk : k ∈ s.kernels.kernels) (hs : s.Placed)
    {value : Term} (hvalue : k.value.toTerm s.kernels = .ok value) {ix : Nat} (hix : ix < k.width)
    (c : N.Real) :
    ∃ c', (Code.loop "iy" k.height (visitCode k value)).trace calls
        (("ix", .int ix) :: s.countVars c)
      = .done (.next (("ix", .int ix) :: s.countVars c'))
          ((List.range k.height).flatMap (s.fetchesAt k ix)) := by
  rw [Code.trace]
  have hround : ∀ iy ∈ List.range k.height, ∀ vars : Items N,
      (∃ c, vars = ("ix", .int ix) :: s.countVars c) → ∃ e vars',
        Code.traceAll calls (visitCode k value) (("iy", .int iy) :: vars)
          = .done e (s.fetchesAt k ix iy) ∧ e.Continues vars.length vars' ∧
        ∃ c, vars' = ("ix", .int ix) :: s.countVars c := by
    rintro iy hiy _ ⟨c, rfl⟩
    obtain ⟨e, c', hcode, hcontinues⟩ :=
      h.trace_visitCode hN hks hk hs hix (List.mem_range.mp hiy) hvalue c
    exact ⟨e, _, hcode, hcontinues, c', rfl⟩
  obtain ⟨_, hrounds, c', rfl⟩ := rounds_done "iy" _ _ (s.fetchesAt k ix) hround _ ⟨c, rfl⟩
  exact ⟨c', hrounds⟩

/-- All columns of a kernel. -/
lemma Serves.trace_columns (h : Serves s calls l) (hN : N.Exact s.reach)
    (hks : s.kernels.Compiled l.cellType) (hk : k ∈ s.kernels.kernels) (hs : s.Placed)
    {value : Term} (hvalue : k.value.toTerm s.kernels = .ok value) (c : N.Real) :
    ∃ c', (Code.loop "ix" k.width [.loop "iy" k.height (visitCode k value)]).trace calls
        (s.countVars c)
      = .done (.next (s.countVars c')) (k.places.flatMap fun p => s.fetchesAt k p.1 p.2) := by
  rw [Code.trace]
  have hround : ∀ ix ∈ List.range k.width, ∀ vars : Items N, (∃ c, vars = s.countVars c) →
      ∃ e vars', Code.traceAll calls [.loop "iy" k.height (visitCode k value)]
          (("ix", .int ix) :: vars)
        = .done e ((List.range k.height).flatMap (s.fetchesAt k ix)) ∧
          e.Continues vars.length vars' ∧ ∃ c, vars' = s.countVars c := by
    rintro ix hix _ ⟨c, rfl⟩
    obtain ⟨c', hcolumn⟩ := h.trace_column hN hks hk hs hvalue (List.mem_range.mp hix) c
    refine ⟨.next (("ix", .int ix) :: s.countVars c'), _, ?_, ⟨_, .inl rfl, rfl⟩, c', rfl⟩
    simp [Code.traceAll, hcolumn]
  obtain ⟨_, hrounds, c', rfl⟩ := rounds_done "ix" _ _
    (fun ix => (List.range k.height).flatMap (s.fetchesAt k ix)) hround _ ⟨c, rfl⟩
  refine ⟨c', hrounds.trans ?_⟩
  simp [Kernel.places, List.flatMap_assoc, List.flatMap_map]

/-- **A counting function** fetches what the rule reads at the places of its kernel, column by
column. -/
theorem Serves.trace_countFunction (h : Serves s calls l) (hN : N.Exact s.reach)
    (hks : s.kernels.Compiled l.cellType) (hk : k ∈ s.kernels.kernels) (hs : s.Placed)
    {value : Term} (hvalue : k.value.toTerm s.kernels = .ok value) :
    ∃ v, (countFunction k value).trace s.globals calls []
      = .done v (k.places.flatMap fun p => s.fetchesAt k p.1 p.2) := by
  have hstart : (Code.declare .float "count" (.float "0.0")).trace calls s.globals
      = .done (.next (s.countVars (N.ofDecimal ⟨false, 0, -1⟩))) [] := by
    refine trace_declare ?_
    rw [Term.trace]
    rfl
  obtain ⟨c, hcolumns⟩ := h.trace_columns hN hks hk hs hvalue (N.ofDecimal ⟨false, 0, -1⟩)
  have hcount : (Term.name "count").trace calls (s.countVars c) = .done (.real c) [] :=
    trace_name rfl
  have hint : calls "int" [.real c] = .done (.int (N.word (N.truncate c))) [] := by
    rw [h.language "int" (by decide)]
    rfl
  obtain ⟨result, v, hbody, hv⟩ : ∃ result v, (countFunction k value).body
      = [.declare .float "count" (.float "0.0"),
        .loop "ix" k.width [.loop "iy" k.height (visitCode k value)], .result result]
      ∧ result.trace calls (s.countVars c) = .done v [] := by
    rw [body_countFunction]
    cases k.result with
    | float => exact ⟨_, _, rfl, hcount⟩
    | int => exact ⟨_, _, rfl, trace_call (traces_cons hcount traces_nil) hint⟩
  refine ⟨v, trace_function rfl ?_⟩
  rw [hbody]
  refine (traceAll_step hstart).trans ?_
  have hbody := traceAll_cons hcolumns (traceAll_result hv)
  rw [List.append_nil] at hbody
  exact hbody

end Counting

end Shader

/-! ## Whole shaders

In a generated shader, a function is found by its name among those that stand in front of it.  Names
are distinct, so what a counting function calls is the function that was meant.
-/

/-- What is fetched for a visit: the weight and the cell. -/
def Visit.fetches (k : Kernel) (v : Visit) : List Fetch :=
  [.weight v.ix v.iy k.index, .cell v.cx v.cy]

/-- What is fetched at some places of a kernel are the visits of the rule. -/
lemma Kernel.flatMap_fetches {s : Stage} {k : Kernel} :
    ∀ {places : List (Nat × Nat)} {visits : List Visit},
      k.visitsFrom s.board.width s.board.height s.x s.y places = .ok visits →
        visits.flatMap (Visit.fetches k) = places.flatMap fun p => s.fetchesAt k p.1 p.2
  | [], visits, h => by
      cases h
      rfl
  | (ix, iy) :: places, visits, h => by
      simp only [Kernel.visitsFrom, bind_eq_ok] at h
      obtain ⟨place, hplace, others, hothers, h⟩ := h
      have ih := Kernel.flatMap_fetches hothers
      rw [List.flatMap_cons, ← ih, Stage.fetchesAt, hplace]
      cases place with
      | none =>
          cases h
          rfl
      | some p =>
          cases h
          rfl

namespace Shader

/-- What stands in front of a counting function in a shader is what it may call. -/
lemma serves_linked {s : Stage} {l : Layout} {specs : List FieldSpec} (hN : N.Exact s.reach)
    (hpack : Layout.pack specs = .ok l) (hboard : s.board.Full) {fs : List Function}
    (hnodup : (fs.map (·.name)).Nodup) (hown : ∀ f ∈ fs, f.name ∉ languageNames)
    (hhelpers : helpers l s.kernels ⊆ fs) : Serves s (s.linked fs : Functions N) l := by
  -- a function in front of those that count sees the language as it is
  have hcalls : ∀ f ∈ helpers l s.kernels, ∃ calls : Functions N,
      (∀ name ∈ languageNames, calls name = s.language name) ∧
        ∀ args, s.linked fs f.name args = f.trace s.globals calls args := by
    intro f hf
    obtain ⟨earlier, hsub, hlinked⟩ := exists_linked (N := N) (s := s) hnodup (hhelpers hf)
    exact ⟨_, linked_language fun g hg => hown g (hsub hg), hlinked⟩
  refine ⟨linked_language hown, ?_, ?_, ?_⟩
  · intro x y hx hy
    obtain ⟨calls, hlanguage, hlinked⟩ := hcalls cellAt (by simp [helpers])
    obtain ⟨r, hr⟩ := hboard.get? hx hy
    have htexel : s.board.texel? x y = some r := by
      rw [Board.texel?, if_pos ⟨hx, hy⟩, hr]
    exact ⟨_, rfl, (hlinked _).trans (trace_cellAt hlanguage htexel)⟩
  · intro hwraps i size hsize hlow hhigh hbound
    have hmem : wrapFunction ∈ helpers l s.kernels := by
      have hany : s.kernels.kernels.any (·.overflow = .wrap) = true := by simpa using hwraps
      simp [helpers, hany]
    obtain ⟨calls, hlanguage, hlinked⟩ := hcalls wrapFunction hmem
    exact (hlinked _).trans (trace_wrapFunction hN hlanguage hsize hlow hhigh hbound)
  · intro d hd bytes hbytes
    have hmem : getter d ∈ helpers l s.kernels := by
      refine List.mem_append_right _ (List.mem_flatMap.mpr ⟨d, hd, by simp⟩)
    obtain ⟨calls, -, hlinked⟩ := hcalls (getter d) hmem
    obtain ⟨v, hv, hvOf⟩ :=
      trace_getter calls (Layout.placed_of_pack hpack hd) s.globals hbytes
    exact ⟨v, (hlinked _).trans hv, hvOf⟩

/-- The counting function of a kernel is found by its name, behind the functions that it calls. -/
lemma exists_trace_countName {l : Layout} {ks : KernelSet} {p : Program Note} {shader : Shader}
    (hfields : (l.fields.map Field.name).Nodup) (hkernels : (ks.kernels.map Kernel.name).Nodup)
    (hshader : Shader.generate l ks p = .ok shader) {k : Kernel} (hk : k ∈ ks.kernels) (s : Stage) :
    ∃ value fs, k.value.toTerm ks = .ok value ∧ (fs.map Function.name).Nodup ∧
      (∀ f ∈ fs, f.name ∉ languageNames) ∧ helpers l ks ⊆ fs ∧
      (shader.trace s (countName k.name) [] : Traced (Item N))
        = (countFunction k value).trace s.globals (s.linked fs) [] := by
  obtain ⟨counts, rule, hcounts, -, -, -, -, hfunctions⟩ := generate_parts hshader
  obtain ⟨value, hvalue, hmem⟩ := exists_countFunction hcounts hk
  obtain ⟨earlier, later, rfl⟩ := List.append_of_mem hmem
  have hsound := sound_globals (l := l) hcounts hfields hkernels rule
  have hreverse : shader.functions.reverse = (mainFunction l ks rule :: later.reverse) ++
      countFunction k value :: (earlier.reverse ++ (helpers l ks).reverse) := by
    simp [hfunctions]
  -- the functions, the last one first, stand in front of all other declarations
  have hsub : (shader.functions.reverse.map Function.name).Sublist
      (List.map Prod.fst ((shader.functions.map Function.entry).reverse ++ baseGlobals)) := by
    rw [List.map_append, ← List.map_reverse, List.map_map]
    exact List.sublist_append_left _ _
  rw [hfunctions] at hsub
  have hnodup := hsound.nodup.sublist hsub
  have hown := fun name hname => hsound.own name (hsub.subset hname)
  rw [← hfunctions, hreverse, List.map_append, List.map_cons] at hnodup hown
  obtain ⟨-, hbehind, hdisjoint⟩ := List.nodup_append.mp hnodup
  refine ⟨value, earlier.reverse ++ (helpers l ks).reverse, hvalue, (List.nodup_cons.mp hbehind).2,
    fun f hf => hown _ ?_, fun f hf => by simp [hf], ?_⟩
  · exact List.mem_append_right _ (List.mem_cons_of_mem _ (List.mem_map_of_mem hf))
  · rw [Shader.trace, hreverse]
    refine linked_append (f := countFunction k value) (fun g hg hname => ?_) []
    exact hdisjoint _ (List.mem_map_of_mem hg) _ List.mem_cons_self hname

end Shader

/-- **Emitted counting visits what the rule visits.**  Whatever the numbers of a shader are, as long
as words hold the numbers of the board and quotients of them are exact when they are rounded down:
the counting function of a kernel fetches, for the visits of the rule and in their order, the weight
of the kernel's place in the kernel's layer, and the cell.  The texel of the table is the weight of
the rule, and the cell lies on the board. -/
theorem Kernel.trace_visits {fields : List FieldSpec} {l : Layout} {specs : List KernelSpec}
    {ks : KernelSet} {p : Program Note} {shader : Shader} (hl : Layout.pack fields = .ok l)
    (hks : KernelSet.compile specs l.cellType = .ok ks)
    (hshader : Shader.generate l ks p = .ok shader) {k : Kernel} (hk : k ∈ ks.kernels)
    {b : Board} (hb : b.Full) {x y : Int}
    (hx : 0 ≤ x ∧ x < b.width) (hy : 0 ≤ y ∧ y < b.height)
    (hN : N.Exact (Stage.reach ⟨b, ks, x, y⟩)) :
    ∃ visits, k.visits b.width b.height x y = .ok visits ∧
      (∀ m : Machine, m.count b k x y = (m.total b k 0 visits).map k.result.value) ∧
      (∃ count : Item N, shader.trace ⟨b, ks, x, y⟩ (countName k.name) []
        = .done count (visits.flatMap (Visit.fetches k))) ∧
      ∀ v ∈ visits, ks.texel? v.ix v.iy k.index = ks.weight? k.index v.ix v.iy ∧
        ks.weight? k.index v.ix v.iy = some (k.entry v.ix v.iy) ∧
        (0 ≤ v.cx ∧ v.cx < b.width) ∧ 0 ≤ v.cy ∧ v.cy < b.height := by
  have hcompiled := KernelSet.compiled_of_compile hks
  have hw : 0 < b.width := by omega
  have hh : 0 < b.height := by omega
  obtain ⟨visits, hvisits, hinside⟩ := k.visits_onBoard hw hh x y
  obtain ⟨value, fs, hvalue, hnodup, hown, hhelpers, htrace⟩ := exists_trace_countName (N := N)
    (Layout.nodup_names_of_pack hl) hcompiled.names_nodup hshader hk ⟨b, ks, x, y⟩
  have hserves : Serves ⟨b, ks, x, y⟩ (Stage.linked ⟨b, ks, x, y⟩ fs : Functions N) l :=
    serves_linked hN hl hb hnodup hown hhelpers
  obtain ⟨count, hcount⟩ := hserves.trace_countFunction hN hcompiled hk ⟨hx, hy⟩ hvalue
  refine ⟨visits, hvisits, fun m => ?_, ⟨count, ?_⟩, fun v hv => ?_⟩
  · rw [Machine.count, hvisits, ok_bind]
    cases m.total b k 0 visits <;> rfl
  · rw [htrace, Kernel.flatMap_fetches (s := ⟨b, ks, x, y⟩) hvisits]
    exact hcount
  · obtain ⟨⟨hix, hiy⟩, hcell⟩ := hinside v hv
    exact ⟨hcompiled.texel?_eq hk hix hiy, hcompiled.weight?_eq hk hix hiy, hcell⟩

/-- The small rule has one kernel, of three rows and columns. -/
lemma Config.aging_table : ∃ c, Config.aging.compile = .ok c ∧
    (c.kernels.kernels.length, c.kernels.width, c.kernels.height) = (1, 3, 3) :=
  exists_ok_of_toOption (by decide +kernel)

/-- The neighbours of a corner of a small board, with words of 32 bits and exact quotients. -/
theorem Kernel.trace_visits_aging :
    ∃ c, Config.aging.compile = .ok c ∧ ∃ k ∈ c.kernels.kernels,
      Numbers.words.Exact (Stage.reach ⟨.blank 3 2, c.kernels, 0, 1⟩) ∧
      ∃ visits, k.visits 3 2 0 1 = .ok visits ∧
        (∀ m : Machine, m.count (.blank 3 2) k 0 1
          = (m.total (.blank 3 2) k 0 visits).map k.result.value) ∧
        (∃ count : Item Numbers.words,
          c.shader.trace ⟨.blank 3 2, c.kernels, 0, 1⟩ (countName k.name) []
            = .done count (visits.flatMap (Visit.fetches k))) ∧
        ∀ v ∈ visits, c.kernels.texel? v.ix v.iy k.index = c.kernels.weight? k.index v.ix v.iy ∧
          c.kernels.weight? k.index v.ix v.iy = some (k.entry v.ix v.iy) ∧
          (0 ≤ v.cx ∧ v.cx < (3 : Nat)) ∧ 0 ≤ v.cy ∧ v.cy < (2 : Nat) := by
  obtain ⟨c, hc, htable⟩ := Config.aging_table
  obtain ⟨hlength, hwidth, hheight⟩ := Prod.mk.inj htable |>.imp_right Prod.mk.inj
  obtain ⟨k, hk⟩ := List.exists_mem_of_length_pos (hlength ▸ Nat.one_pos)
  obtain ⟨⟨specs, -, hpack⟩, hkernels, -, hshader⟩ := Config.compile_eq_ok_iff.mp hc
  have hexact : Numbers.words.Exact (Stage.reach ⟨.blank 3 2, c.kernels, 0, 1⟩) :=
    Numbers.words_exact (by simp [Stage.reach, hwidth, hheight, Board.blank])
  exact ⟨c, hc, k, hk, hexact, Kernel.trace_visits hpack hkernels hshader hk
    (b := .blank 3 2) (by simp [Board.Full, Board.blank]) (by decide) (by decide) hexact⟩

end Cellular
