import Cellular.Proofs.Machine.Translation
import Cellular.Proofs.Ruleset.Compilation

/-!
# Generations of life-like rules

What a compiled ruleset does to the cells of a closed board.

* `Board.liveNeighbours` is the number of live ones among the eight neighbours of a place.
* `Ruleset.Counts` says what is compiled of the kernel; `Ruleset.count_neighbours`: it counts the
  live neighbours, and the sums are exact.
* `Ruleset.Compiles.step` makes one generation of all cells; `Ruleset.step_life` is the statement for
  a compiled rule.
* `Ruleset.NoOlder` bounds the ages of live cells; `Ruleset.run_noOlder`: which bound a run keeps.

Two things are proved apart and then put together: that the kernel counts the neighbours, and that
the program does with this number what the rule says.  The count is made of floats, and they are
exact here because no partial sum is larger than eight; that is a finite check of the float
operations on small integers.  The other half is about a single cell and has been done.

Ages have a bound that a run keeps if it holds at the start.  It is not the age of natural death
alone, as a starving cell may live beyond that age; the example at the end shows such a cell.
-/

namespace Cellular

/-! ## Lives on a board

Neighbours are counted in the terms of the board, without a kernel.  On a board of one column a cell
is its own neighbour, as the board is closed.
-/

/-- The life of the cell in column `x` of row `y`. -/
def Board.life? (l : Layout) (b : Board) (x y : Int) : Option Life := (b.get? x y).bind l.life?

/-- The way from a cell to each of its eight neighbours. -/
def moore : List (Int × Int) :=
  [(-1, -1), (-1, 0), (-1, 1), (0, -1), (0, 1), (1, -1), (1, 0), (1, 1)]

/-- The number of live cells among the eight neighbours of a place, around the edges.  On a narrow
board a cell is a neighbour several times, and counts as often. -/
def Board.liveNeighbours (l : Layout) (b : Board) (x y : Int) : Nat :=
  moore.countP fun d =>
    (b.life? l ((x + d.1) % b.width) ((y + d.2) % b.height)).any Life.alive

lemma Board.liveNeighbours_le (l : Layout) (b : Board) (x y : Int) : b.liveNeighbours l x y ≤ 8 :=
  List.countP_le_length

namespace Ruleset

/-! ## The kernel

What is known of the compiled kernel is read off its declaration.
-/

/-- The value function of the kernel: 1 for a live cell, else 0. -/
def valueOf : Expr Unit := .ternary () (.access () alive) (numeral 1) (numeral 0)

lemma exists_parse_value : ∃ e, Expr.parse neighbours.valueFn = .ok e ∧ e.bare = valueOf := by
  have hwhole := Rereads.ternary (Rereads.access alive_words).chain
    (rereads_numeral (n := 1) (by decide)).chain.expr
    (rereads_numeral (n := 0) (by decide)).chain.expr
  rw [show alive.text.toList ++ _ = neighbours.valueFn.toList by decide] at hwhole
  exact hwhole.parse

/-- The kernel, as it is compiled over the cells of a ruleset. -/
structure Counts (k : Kernel) : Prop where
  size : k.width = 3 ∧ k.height = 3
  matrix : k.matrix = neighbours.matrix
  overflow : k.overflow = .wrap
  result : k.result = .int
  typed : k.value.WellTyped (Scope.builtin [] cellName layout.cellType)
  value : k.value.bare = valueOf

lemma counts_of_declares {k : Kernel}
    (h : neighbours.Declares (Scope.builtin [] cellName layout.cellType) k) : Counts k := by
  obtain ⟨path, hsize⟩ := h.size
  obtain ⟨read, hread, hcheck⟩ := h.value
  obtain ⟨e, hparse, hbare⟩ := exists_parse_value
  obtain rfl := Except.ok.inj (hparse.symm.trans hread)
  have hmatrix : KernelSpec.checkMatrix path neighbours.matrix = .ok (3, 3) := rfl
  obtain ⟨hheight, hwidth⟩ := Prod.mk.inj (Except.ok.inj (hsize.symm.trans hmatrix))
  exact {
    size := ⟨hwidth, hheight⟩
    matrix := h.matrix
    overflow := (Option.some.inj h.overflow).symm
    result := (Option.some.inj h.result).symm
    typed := Expr.wellTyped_of_check hcheck
    value := by rw [Expr.bare_of_check hcheck, hbare] }

/-- The value of the kernel on a cell. -/
lemma Counts.eval_value {k : Kernel} (h : Counts k) (r : Record) :
    k.value.eval layout { cell := r }
      = .ok (.int (Int32.ofNat (if (lifeOf r).alive then 1 else 0))) := by
  rw [← toOption_eq_some, Expr.eval_seeing h.typed, h.value]
  cases halive : (lifeOf r).alive with
  | true =>
      have htest : (Value.bool (lifeOf r).alive).isTrue = true := halive
      exact congrArg Except.toOption (if_pos htest)
  | false =>
      have htest : ¬ (Value.bool (lifeOf r).alive).isTrue = true := by simp [Value.isTrue, halive]
      exact congrArg Except.toOption (if_neg htest)

/-! ### Exact sums -/

/-- Small integers are added without rounding. -/
lemma ofInteger_add : ∀ s < 9, ∀ w < 2,
    Number.ofInteger (s : Nat) + Number.ofInteger (w : Nat) = Number.ofInteger (s + w : Nat) := by
  decide +kernel

lemma truncate_ofInteger : ∀ s < 9, Number.truncate (Number.ofInteger (s : Nat)) = s := by
  decide +kernel

/-- Weights and values of the kernel are 0 and 1. -/
lemma narrow_mul_ofInteger : ∀ v < 2,
    Number.narrow 0 * Number.ofInteger (v : Nat) = Number.ofInteger 0 ∧
    Number.narrow 1 * Number.ofInteger (v : Nat) = Number.ofInteger (v : Nat) := by
  decide +kernel

lemma toFloat_ofNat : ∀ v < 2, (Value.int (Int32.ofNat v)).toFloat = Number.ofInteger (v : Nat) := by
  decide +kernel

/-- A total of zeros and ones is their number. -/
lemma total_ofInteger {m : Machine} {b : Board} {k : Kernel} {w : Visit → Nat} :
    ∀ {visits : List Visit}
      (_ : ∀ v ∈ visits, m.weigh b k v = .ok (Number.ofInteger (w v)) ∧ w v < 2)
      {s : Nat}, s + (visits.map w).sum ≤ 8 →
      m.total b k (Number.ofInteger s) visits = .ok (Number.ofInteger (s + (visits.map w).sum : Nat))
  | [], _, s, _ => rfl
  | v :: visits, h, s, hs => by
      rw [List.forall_mem_cons] at h
      rw [List.map_cons, List.sum_cons] at hs ⊢
      rw [Machine.total, h.1.1, ok_bind, ofInteger_add s (by omega) (w v) h.1.2,
        total_ofInteger h.2 (by omega), Nat.add_assoc]

/-! ### The count -/

/-- What a visited cell adds to the count: the cell in the middle adds nothing. -/
def share (b : Board) (v : Visit) : Nat :=
  if (v.ix, v.iy) = (1, 1) then 0
  else if (b.life? layout v.cx v.cy).any Life.alive then 1 else 0

lemma share_lt (b : Board) (v : Visit) : share b v < 2 := by
  rw [share]
  split_ifs <;> decide

/-- The weights around the middle are 1. -/
lemma Counts.entry {k : Kernel} (h : Counts k) {x y : Nat} (hx : x < 3) (hy : y < 3) :
    k.entry x y = if (x, y) = (1, 1) then Number.narrow 0 else Number.narrow 1 := by
  rw [Kernel.entry, h.matrix]
  interval_cases x <;> interval_cases y <;> rfl

/-- **The shares of the places that the kernel reads add up to the number of live neighbours.** -/
lemma Counts.sum_share {k : Kernel} (h : Counts k) (b : Board) (x y : Int) :
    (((k.places.map (k.wrapped b.width b.height x y)).map (share b))).sum
      = b.liveNeighbours layout x y := by
  have hplaces : k.places
      = [(0, 0), (0, 1), (0, 2), (1, 0), (1, 1), (1, 2), (2, 0), (2, 1), (2, 2)] := by
    rw [Kernel.places, h.size.1, h.size.2]
    rfl
  have hoffset : k.offsetX = 1 ∧ k.offsetY = 1 := by
    rw [Kernel.offsetX, Kernel.offsetY, h.size.1, h.size.2]
    exact ⟨rfl, rfl⟩
  rw [hplaces, Board.liveNeighbours, moore]
  have htwo : ∀ z : Int, z + 2 - 1 = z + 1 := fun z => by ring
  simp [share, Kernel.wrapped, hoffset.1, hoffset.2, List.countP_cons, htwo, Int.sub_eq_add_neg]
  ring

variable {c : Compiled} {b : Board}

lemma weigh_neighbours (hlayout : c.layout = layout) (hks : c.kernels.Compiled layout.cellType)
    {k : Kernel} (hk : k ∈ c.kernels.kernels) (h : Counts k) (hb : b.Full) {v : Visit}
    (hv : k.Inside b.width b.height v) :
    c.machine.weigh b k v = .ok (Number.ofInteger (share b v)) := by
  obtain ⟨⟨hx, hy⟩, hcx, hcy⟩ := hv
  obtain ⟨r, hr⟩ := hb.get? hcx hcy
  have hweight := hks.weight?_eq hk hx hy
  rw [h.size.1] at hx
  rw [h.size.2] at hy
  rw [h.entry hx hy] at hweight
  simp only [Machine.weigh, Compiled.machine, hweight, hr, hlayout, h.eval_value, Except.mapError,
    ok_bind]
  have hlife : b.life? layout v.cx v.cy = some (lifeOf r) := by rw [Board.life?, hr]; rfl
  rw [pure_eq_ok, share, hlife, Option.any_some, toFloat_ofNat _ (by split_ifs <;> decide)]
  split_ifs
  · exact (narrow_mul_ofInteger 1 (by decide)).1
  · exact (narrow_mul_ofInteger 0 (by decide)).1
  · exact (narrow_mul_ofInteger 1 (by decide)).2
  · exact (narrow_mul_ofInteger 0 (by decide)).2

/-- **The kernel counts the live neighbours**, around any place. -/
theorem count_neighbours (hlayout : c.layout = layout)
    (hks : c.kernels.Compiled layout.cellType) {k : Kernel} (hk : k ∈ c.kernels.kernels)
    (h : Counts k) (hb : b.Full) (hw : 0 < b.width) (hh : 0 < b.height) (x y : Int) :
    c.machine.count b k x y = .ok (.int (Int32.ofNat (b.liveNeighbours layout x y))) := by
  have hvisits := k.visits_wrap h.overflow hw hh x y
  have hle := b.liveNeighbours_le layout x y
  obtain ⟨visits, hvisits', hinside⟩ := k.visits_onBoard hw hh x y
  obtain rfl := Except.ok.inj (hvisits'.symm.trans hvisits)
  have htotal := total_ofInteger (m := c.machine) (b := b) (k := k) (s := 0)
    (fun v hv => ⟨weigh_neighbours hlayout hks hk h hb (hinside v hv), share_lt b v⟩)
    (by rw [h.sum_share]; omega)
  rw [h.sum_share, Nat.zero_add] at htotal
  rw [Machine.count, hvisits, ok_bind,
    show (0 : Float32) = Number.ofInteger (0 : Nat) by decide +kernel,
    htotal, ok_bind, pure_eq_ok, h.result, CountType.value, truncate_ofInteger _ (by omega)]
  rfl

/-! ## Generations

The step of a cell is the program, run with the count of the kernel.
-/

/-- What the compiled rule of a ruleset consists of. -/
structure Compiles (r : Ruleset) (c : Compiled) : Prop where
  inRange : r.InRange
  wellFormed : c.WellFormed
  layout_eq : c.layout = layout
  kernel : ∃ k, c.kernels.kernels = [k] ∧ k.name = neighbours.name ∧ Counts k
  program : Stmt.allBare c.program.body = r.rule

lemma compiles_of_compile {r : Ruleset} {config : Config} (h : r.expand = .ok config)
    (hc : config.compile = .ok c) : r.Compiles c := by
  simp only [expand, bind_eq_ok, pure_eq_ok] at h
  obtain ⟨⟨⟩, hvalid, rfl⟩ := h
  have hrange := validate_eq_ok.mp hvalid
  have hwf := Config.wellFormed_of_compile hc
  obtain ⟨⟨specs, hspecs, hpack⟩, hkernels, ⟨parsed, hparsed, hchecked⟩, -⟩ :=
    Config.compile_eq_ok_iff.mp hc
  obtain rfl : [⟨"alive", .flag, 0⟩, ⟨"age", .number, 8⟩] = specs := Except.ok.inj hspecs
  have hlayout : c.layout = layout := Except.ok.inj (hpack.symm.trans pack_layout)
  obtain ⟨hall, -⟩ := KernelSet.compile_eq_ok_iff.mp hkernels
  obtain ⟨k, more, hdeclares, hmore, hk⟩ := List.forall₂_cons_left_iff.mp hall
  rw [List.forall₂_nil_left_iff.mp hmore] at hk
  obtain ⟨p, hp, hbare⟩ := exists_parse hrange
  obtain rfl := Except.ok.inj (hp.symm.trans hparsed)
  rw [hlayout] at hdeclares
  exact {
    inRange := hrange
    wellFormed := hwf
    layout_eq := hlayout
    kernel := ⟨k, hk, hdeclares.name, counts_of_declares hdeclares⟩
    program := by rw [Program.allBare_of_check hchecked, hbare] }

/-- **The next record of a cell has the next life.** -/
lemma Compiles.life_stepCell {r : Ruleset} (h : r.Compiles c) (hb : b.Full) {x y : Int}
    {prev s : Record} (hw : 0 < b.width) (hh : 0 < b.height) (hprev : b.get? x y = some prev)
    (hs : c.machine.stepCell b x y = .ok s) :
    lifeOf s = r.next (b.liveNeighbours layout x y) (lifeOf prev) := by
  obtain ⟨k, hk, hname, hcounts⟩ := h.kernel
  have hks := h.wellFormed.kernels
  rw [h.layout_eq] at hks
  have hcount := count_neighbours h.layout_eq hks (hk ▸ List.mem_cons_self) hcounts hb hw hh x y
  simp only [Machine.stepCell, hprev, bind_eq_ok, mapError_eq_ok, pure_eq_ok] at hs
  obtain ⟨counts, hall, f, hf, rfl⟩ := hs
  have hcounted : counts
      = [(neighbours.name, .int (Int32.ofNat (b.liveNeighbours layout x y)))] := by
    rw [Machine.counts, show c.machine.kernels.kernels = [k] from hk, Machine.countAll, hcount,
      ok_bind, hname] at hall
    exact (Except.ok.inj hall).symm
  have hscope : rootScope c.layout c.kernels = scope := by
    rw [rootScope_eq, hk, h.layout_eq, List.map_singleton, Kernel.binding, hname, hcounts.result]
    rfl
  have htyped := h.wellFormed.typed
  rw [hscope] at htyped
  -- the program runs as its tree does
  have hsame := Stmt.execAll_seeing (l := layout) (f := { cell := prev, prev, counts }) htyped
  rw [h.program] at hsame
  obtain ⟨f', hf', hshows⟩ := rule_makes h.inRange (b.liveNeighbours_le layout x y)
    (age_lifeOf_le prev) { cell := prev, prev, counts } ⟨rfl, by rw [hcounted]; rfl⟩
  rw [hf', toOption_eq_some.mpr rfl, toOption_eq_some] at hsame
  have hlayout : c.machine.layout = layout := h.layout_eq
  rw [hlayout] at hf ⊢
  obtain rfl := Except.ok.inj (hf.symm.trans hsame)
  have hclean := Machine.agree_clean pack_layout f.cell
  rw [← hshows.life, lifeOf, lifeOf, hclean _ aliveField_mem, hclean _ ageField_mem]

/-- A step makes one generation of every cell. -/
theorem Compiles.step {r : Ruleset} (h : r.Compiles c) (hb : b.Full) (hw : 0 < b.width)
    (hh : 0 < b.height) :
    ∃ d, c.machine.step b = .ok d ∧ (d.width = b.width ∧ d.height = b.height ∧ d.Full) ∧
      ∀ x < b.width, ∀ y < b.height, ∃ a : Life, a.age ≤ maxAge ∧
        b.life? layout x y = some a ∧
        d.life? layout x y = some (r.next (b.liveNeighbours layout x y) a) := by
  obtain ⟨d, hd, hwidth, hheight, hfull⟩ := Machine.step_ok h.wellFormed hb
  refine ⟨d, hd, ⟨hwidth, hheight, hfull⟩, ?_⟩
  intro x hx y hy
  obtain ⟨prev, hprev⟩ := hb.get? (x := x) (y := y) (by omega) (by omega)
  obtain ⟨s, hs, hget⟩ := Machine.get?_step hb hd hx hy
  refine ⟨lifeOf prev, age_lifeOf_le prev, ?_, ?_⟩
  · rw [Board.life?, hprev, Option.bind_some, life?_layout]
  · rw [Board.life?, hget, Option.bind_some, life?_layout, h.life_stepCell hb hw hh hprev hs]

/-- A cell that stays alive does not grow younger. -/
lemma age_le_next {r : Ruleset} {n : Nat} {a : Life} (ha : a.age ≤ maxAge) (halive : a.alive = true)
    (hnext : (r.next n a).alive = true) : a.age ≤ (r.next n a).age := by
  rw [next, if_pos halive] at hnext ⊢
  split_ifs at hnext ⊢
  · exact Nat.le_min.mpr ⟨Nat.le_succ _, ha⟩
  · exact Nat.le_succ _

/-- **The compiled rule of a ruleset implements the ruleset.**  On a board with cells a step of it
gives every cell the next life for its number of live neighbours, and the age of a cell that stays
alive does not wrap. -/
theorem step_life {r : Ruleset} {config : Config} (h : r.expand = .ok config)
    (hc : config.compile = .ok c) (hb : b.cells.size = b.width * b.height) (hw : 0 < b.width)
    (hh : 0 < b.height) :
    ∃ d, c.machine.step b = .ok d ∧ d.width = b.width ∧ d.height = b.height ∧
      ∀ x < b.width, ∀ y < b.height, ∃ old new : Life,
        b.life? c.layout x y = some old ∧ d.life? c.layout x y = some new ∧
        new = r.next (b.liveNeighbours c.layout x y) old ∧
        (old.alive = true → new.alive = true → old.age ≤ new.age) := by
  have hcompiles := compiles_of_compile h hc
  obtain ⟨d, hd, ⟨hwidth, hheight, -⟩, hlives⟩ := hcompiles.step hb hw hh
  refine ⟨d, hd, hwidth, hheight, ?_⟩
  intro x hx y hy
  obtain ⟨a, hage, hold, hnew⟩ := hlives x hx y hy
  rw [hcompiles.layout_eq]
  exact ⟨a, _, hold, hnew, rfl, age_le_next hage⟩

/-- A rule with an early natural death and a longer starvation delay. -/
def weary : Ruleset := { survive := [8], birth := [3], naturalDeath := 1, starve := 3 }

lemma weary_compiles : ∃ config c, weary.expand = .ok config ∧ config.compile = .ok c :=
  InRange.exists_compile ⟨by decide, by decide, by decide, by decide⟩

/-- Two cells in a row, of the ages 0 and 2.  Each is a neighbour of the other six times and of
itself twice, so both have eight; the rule keeps the younger one, and hunger does not kill the other
one yet. -/
def pair : Board := ⟨2, 1, #[⟨1, 0, 0, 0⟩, ⟨3, 0, 0, 0⟩]⟩

/-- Both cells get older: the rule keeps the younger one, and the older one, which the rule no longer
keeps, has not starved yet. -/
theorem step_life_pair :
    ∃ config c, weary.expand = .ok config ∧ config.compile = .ok c ∧
      ∃ d, c.machine.step pair = .ok d ∧
        d.life? c.layout 0 0 = some ⟨true, 1⟩ ∧ d.life? c.layout 1 0 = some ⟨true, 3⟩ := by
  obtain ⟨config, c, h, hc⟩ := weary_compiles
  obtain ⟨d, hd, -, -, hlives⟩ := step_life h hc (b := pair) rfl (by decide) (by decide)
  obtain ⟨old, new, hold, hnew, hnext, -⟩ := hlives 0 (by decide) 0 (by decide)
  obtain ⟨old', new', hold', hnew', hnext', -⟩ := hlives 1 (by decide) 0 (by decide)
  refine ⟨config, c, h, hc, d, hd, ?_⟩
  rw [(compiles_of_compile h hc).layout_eq] at *
  obtain rfl : (⟨true, 0⟩ : Life) = old := Option.some.inj (Eq.trans (by decide) hold)
  obtain rfl : (⟨true, 2⟩ : Life) = old' := Option.some.inj (Eq.trans (by decide) hold')
  exact ⟨hnew.trans (congrArg some (hnext.trans (by decide))),
    hnew'.trans (congrArg some (hnext'.trans (by decide)))⟩

/-! ## Ages

The bound is an invariant of single cells: dead ones have no age to speak of, and a cell grows older
by one if it was below one of the two limits.
-/

/-- No live cell of the board is older than `k`. -/
def NoOlder (l : Layout) (b : Board) (k : Int) : Prop :=
  ∀ x < b.width, ∀ y < b.height, ∀ a ∈ b.life? l x y, a.alive = true → a.age ≤ k

instance (l : Layout) (b : Board) (k : Int) : Decidable (NoOlder l b k) :=
  inferInstanceAs
    (Decidable (∀ x < b.width, ∀ y < b.height, ∀ a ∈ b.life? l x y, a.alive = true → a.age ≤ k))

/-- Under a rule with natural death a cell that survives is not yet of that age, and one that starves
is not yet at the end of its delay. -/
lemma age_next_le {r : Ruleset} (hlimit : 0 < r.naturalDeath) {n : Nat} {a : Life} :
    ((r.next n a).age : Int) ≤ max r.naturalDeath r.starve := by
  rw [next]
  split_ifs with halive hlives hstarves
  · obtain ⟨-, hzero | hyoung⟩ := hlives
    · omega
    · calc ((min (a.age + 1) maxAge : Nat) : Int) ≤ (a.age + 1 : Nat) :=
            Int.ofNat_le.mpr (Nat.min_le_left _ _)
        _ ≤ r.naturalDeath := by omega
        _ ≤ max r.naturalDeath r.starve := le_max_left _ _
  · calc ((a.age + 1 : Nat) : Int) ≤ r.starve := by omega
      _ ≤ max r.naturalDeath r.starve := le_max_right _ _
  · exact hlimit.le.trans (le_max_left _ _)
  · exact hlimit.le.trans (le_max_left _ _)

/-- A step leaves no live cell older than natural death and hunger allow. -/
lemma Compiles.noOlder_step {r : Ruleset} (h : r.Compiles c) (hlimit : 0 < r.naturalDeath)
    (hb : b.Full) (hw : 0 < b.width) (hh : 0 < b.height) {d : Board}
    (hd : c.machine.step b = .ok d) :
    (d.width = b.width ∧ d.height = b.height ∧ d.Full) ∧
      NoOlder layout d (max r.naturalDeath r.starve) := by
  obtain ⟨d', hd', hsize, hlives⟩ := h.step hb hw hh
  obtain rfl := Except.ok.inj (hd'.symm.trans hd)
  refine ⟨hsize, ?_⟩
  intro x hx y hy a ha _
  obtain ⟨old, -, -, hnew⟩ := hlives x (hsize.1 ▸ hx) y (hsize.2.1 ▸ hy)
  obtain rfl := Option.some.inj (hnew.symm.trans ha)
  exact age_next_le hlimit

/-- **No live cell outgrows natural death and starvation delay.**  The rule has an age of natural
death.  A board has no live cell that is older than this age and the starvation delay; then it has
none after any number of steps.  Without a longer delay, natural death is a largest age. -/
theorem run_noOlder {r : Ruleset} {config : Config} (h : r.expand = .ok config)
    (hc : config.compile = .ok c) (hlimit : 0 < r.naturalDeath)
    (hb : b.cells.size = b.width * b.height) (hw : 0 < b.width) (hh : 0 < b.height)
    (hages : NoOlder c.layout b (max r.naturalDeath r.starve)) (n : Nat) :
    ∃ d, c.machine.run b n = .ok d ∧ d.width = b.width ∧ d.height = b.height ∧
      NoOlder c.layout d (max r.naturalDeath r.starve) := by
  have hcompiles := compiles_of_compile h hc
  induction n generalizing b with
  | zero => exact ⟨b, rfl, rfl, rfl, hages⟩
  | succ n ih =>
      obtain ⟨next, hnext, -⟩ := hcompiles.step hb hw hh
      obtain ⟨⟨hwidth, hheight, hfull⟩, hyoung⟩ :=
        hcompiles.noOlder_step hlimit hb hw hh hnext
      rw [← hcompiles.layout_eq] at hyoung
      obtain ⟨d, hd, hdwidth, hdheight, hdages⟩ :=
        ih hfull (hwidth ▸ hw) (hheight ▸ hh) hyoung
      exact ⟨d, by rw [Machine.run, hnext, ok_bind, hd], hdwidth.trans hwidth,
        hdheight.trans hheight, hdages⟩

/-- Seven generations of the two cells: none gets older than 3. -/
theorem run_noOlder_pair :
    ∃ config c, weary.expand = .ok config ∧ config.compile = .ok c ∧ 0 < weary.naturalDeath ∧
      NoOlder c.layout pair (max weary.naturalDeath weary.starve) ∧
      ∃ d, c.machine.run pair 7 = .ok d ∧ d.width = 2 ∧ d.height = 1 ∧ NoOlder c.layout d 3 := by
  obtain ⟨config, c, h, hc⟩ := weary_compiles
  have hages : NoOlder c.layout pair (max weary.naturalDeath weary.starve) := by
    rw [(compiles_of_compile h hc).layout_eq]
    decide
  exact ⟨config, c, h, hc, by decide, hages,
    run_noOlder h hc (b := pair) (by decide) rfl (by decide) (by decide) hages 7⟩

/-- A lone cell of age 1. -/
def lone : Board := ⟨1, 1, #[⟨1, 1, 0, 0⟩]⟩

/-- Natural death alone is no largest age: under a rule that lets cells die at the age 1 but starve
for longer, a cell that should die is 2 generations old after a step. -/
theorem weary_outgrows_naturalDeath :
    ∃ config c, weary.expand = .ok config ∧ config.compile = .ok c ∧ 0 < weary.naturalDeath ∧
      NoOlder c.layout lone weary.naturalDeath ∧
      ∃ d, c.machine.run lone 1 = .ok d ∧ ¬ NoOlder c.layout d weary.naturalDeath := by
  obtain ⟨config, c, h, hc⟩ := weary_compiles
  have hcompiles := compiles_of_compile h hc
  have hages : NoOlder layout lone weary.naturalDeath := by decide
  obtain ⟨d, hd, ⟨hwidth, hheight, -⟩, hlives⟩ :=
    hcompiles.step (b := lone) rfl (by decide) (by decide)
  obtain ⟨old, -, hold, hnew⟩ := hlives 0 (by decide) 0 (by decide)
  obtain rfl : (⟨true, 1⟩ : Life) = old := Option.some.inj (Eq.trans (by decide) hold)
  refine ⟨config, c, h, hc, by decide, hcompiles.layout_eq ▸ hages, d, ?_, ?_⟩
  · rw [Machine.run, hd, ok_bind]
    rfl
  · rw [hcompiles.layout_eq]
    intro hbounded
    have hage := hbounded 0 (hwidth ▸ Nat.one_pos) 0 (hheight ▸ Nat.one_pos) _ hnew (by decide)
    exact absurd hage (by decide)

end Ruleset

end Cellular
