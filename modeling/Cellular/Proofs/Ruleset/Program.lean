import Cellular.Proofs.Layout.Lenses
import Cellular.Proofs.Machine.Erasure
import Cellular.Proofs.Ruleset.Reading

/-!
# The program of a ruleset at work

What the program of a ruleset does to a single cell.

* `Life` is what a record says of a cell, and `Ruleset.next` is one generation of a cell with a given
  number of live neighbours: it is written without programs, kernels and bits.
* `Ruleset.Yields` and `Ruleset.Makes` say what conditions and statements do where a cell has a
  certain life; there is one lemma for every form of them that the program uses.
* `Ruleset.rule_makes`: the program makes one generation.

A condition or a statement is described by what it does to a life, and a life is two values that are
read from a record.  The description is independent of the rest of the frame, so statements compose
if their lives do.  Ages are numbers of eight bits in the record and words in the program.  They
never come near the bounds of a word.  An age at the top of its field is not increased: the program
compares it with the largest age first, or with a delay that is no larger.
-/

namespace Cellular

/-! ## Lives

`Ruleset.next` is the specification.  It follows the words in which such rules are usually
described.
-/

/-- The life of a cell: whether it is alive, and its age. -/
structure Life where
  alive : Bool
  age : Nat
deriving Repr, DecidableEq

/-- What a record says of the life of its cell, if the layout has a field for life and one for
age. -/
def Layout.life? (l : Layout) (r : Record) : Option Life :=
  (l.field? "alive").bind fun f => (l.field? "age").map fun g => ⟨f.get r != 0, (g.get r).toNat⟩

namespace Ruleset

/-- One generation of a cell with `n` live neighbours.  A live cell that the rule keeps grows older
up to the largest age.  Any other one lives on while it is younger than the starvation delay, and
then dies. -/
def next (r : Ruleset) (n : Nat) (a : Life) : Life :=
  if a.alive then
    if (n : Int) ∈ r.survive ∧ (r.naturalDeath = 0 ∨ (a.age : Int) < r.naturalDeath) then
      ⟨true, min (a.age + 1) maxAge⟩
    else if (a.age : Int) < r.starve then ⟨true, a.age + 1⟩
    else ⟨false, 0⟩
  else ⟨decide ((n : Int) ∈ r.birth), 0⟩

/-! ## Cells of a ruleset

The layout is the same for all rulesets: one bit for life and eight for the age.
-/

/-- The flag for life. -/
def aliveField : Field := ⟨"alive", .flag, [⟨0, 0, 0⟩]⟩

/-- The age: seven bits of the first byte and one of the second. -/
def ageField : Field := ⟨"age", .number, [⟨0, 1, 7⟩, ⟨1, 0, 0⟩]⟩

/-- The layout of the cells of a ruleset. -/
def layout : Layout := { fields := [aliveField, ageField], bits := 9 }

/-- The names that the program of a ruleset sees. -/
def scope : Scope :=
  [⟨neighbours.name, .int, false⟩, ⟨prevName, layout.cellType, false⟩,
    ⟨cellName, layout.cellType, false⟩]

lemma pack_layout :
    Layout.pack [⟨"alive", .flag, 0⟩, ⟨"age", .number, 8⟩] = .ok layout :=
  toOption_eq_some.mp (by decide +kernel)

lemma aliveField_mem : aliveField ∈ layout.fields := List.mem_cons_self

lemma ageField_mem : ageField ∈ layout.fields := List.mem_cons_of_mem _ List.mem_cons_self

lemma ageField_separate : ageField.Separate := Layout.separate_of_pack pack_layout ageField_mem

/-- The life of a cell of a ruleset. -/
def lifeOf (r : Record) : Life := ⟨aliveField.get r != 0, (ageField.get r).toNat⟩

lemma life?_layout (r : Record) : layout.life? r = some (lifeOf r) := rfl

/-- An age has eight bits. -/
lemma age_lifeOf_le (r : Record) : (lifeOf r).age ≤ maxAge := by
  have hfits := Field.get_set_self ageField_separate r (ageField.get r)
  rw [Field.set_get_self ageField_separate] at hfits
  have hlt := Nat.mod_lt (ageField.get r).toNat (show 0 < 2 ^ ageField.width by decide)
  rw [← hfits, show (2 : Nat) ^ ageField.width = maxAge + 1 by decide] at hlt
  exact Nat.le_of_lt_succ hlt

/-! ## Small integers

Numbers up to the largest age are compared as words in the same way as as numbers.
-/

lemma toInt32_eq_ofNat (v : UInt32) : v.toInt32 = Int32.ofNat v.toNat := by
  apply Int32.toBitVec.inj
  simp

lemma ofNat_lt_ofNat {m k : Nat} (hm : m ≤ maxAge) (hk : k ≤ maxAge) :
    Int32.ofNat m < Int32.ofNat k ↔ m < k := by
  rw [maxAge] at hm hk
  rw [Int32.lt_iff_toInt_lt, Int32.toInt_ofNat_of_lt (by omega), Int32.toInt_ofNat_of_lt (by omega)]
  omega

lemma ofNat_eq_ofNat {m k : Nat} (hm : m ≤ maxAge) (hk : k ≤ maxAge) :
    Int32.ofNat m = Int32.ofNat k ↔ m = k := by
  rw [maxAge] at hm hk
  rw [← Int32.toInt_inj, Int32.toInt_ofNat_of_lt (by omega), Int32.toInt_ofNat_of_lt (by omega)]
  omega

lemma toNat_toUInt32_ofNat {m : Nat} (hm : m ≤ maxAge) : (Int32.ofNat m).toUInt32.toNat = m := by
  rw [maxAge] at hm
  simp only [Int32.toUInt32_ofNat', UInt32.toNat_ofNat']
  omega

/-! ## Conditions

The value of each condition is given as a decidable statement on the life and the number of
neighbours.
-/

/-- A frame of a running program: its cell has the life `a`, and `n` live neighbours. -/
structure Shows (n : Nat) (a : Life) (f : Frame) : Prop where
  life : lifeOf f.cell = a
  total : f.counts.lookup neighbours.name = some (.int (Int32.ofNat n))

/-- Where the cell has the life `a` and `n` live neighbours, the expression has the value `v`. -/
def Yields (n : Nat) (a : Life) (e : Expr Unit) (v : Value) : Prop :=
  ∀ f, Shows n a f → (e.seeing scope).eval layout f = .ok v

section Conditions

variable {n : Nat} {a : Life} {e e' : Expr Unit} {p q : Prop} [Decidable p] [Decidable q]

lemma yields_alive : Yields n a (.access () alive) (.bool a.alive) := by
  rintro f ⟨rfl, -⟩
  rfl

lemma yields_age : Yields n a (.access () age) (.int (Int32.ofNat a.age)) := by
  rintro f ⟨rfl, -⟩
  rw [lifeOf, ← toInt32_eq_ofNat]
  rfl

lemma yields_total : Yields n a (.access () ⟨neighbours.name, []⟩) (.int (Int32.ofNat n)) := by
  rintro f ⟨-, htotal⟩
  have hfind : scope.find? neighbours.name = some (⟨neighbours.name, .int, false⟩, 2) := rfl
  simp only [Expr.seeing, Expr.map, Expr.eval, Frame.access, hfind, htotal, Bool.false_eq_true,
    if_false]

lemma yields_numeral (k : Nat) : Yields n a (numeral k) (.int (Int32.ofNat k)) := fun _ _ => rfl

lemma Yields.not (h : Yields n a e (.bool (decide p))) :
    Yields n a (.unary () .not e) (.bool (decide (¬ p))) := by
  intro f hf
  rw [Expr.seeing, Expr.map, Expr.eval, show (e.map fun _ => _).eval layout f = _ from h f hf,
    ok_bind, decide_not]
  rfl

lemma Yields.or (h : Yields n a e (.bool (decide p))) (h' : Yields n a e' (.bool (decide q))) :
    Yields n a (.binary () .or e e') (.bool (decide (p ∨ q))) := by
  intro f hf
  rw [Expr.seeing, Expr.map, Expr.eval, show (e.map fun _ => _).eval layout f = _ from h f hf,
    show (e'.map fun _ => _).eval layout f = _ from h' f hf]
  by_cases hp : p <;> simp [hp, Value.isTrue, pure_eq_ok]

lemma Yields.and (h : Yields n a e (.bool (decide p))) (h' : Yields n a e' (.bool (decide q))) :
    Yields n a (.binary () .and e e') (.bool (decide (p ∧ q))) := by
  intro f hf
  rw [Expr.seeing, Expr.map, Expr.eval, show (e.map fun _ => _).eval layout f = _ from h f hf,
    show (e'.map fun _ => _).eval layout f = _ from h' f hf]
  by_cases hp : p <;> simp [hp, Value.isTrue, pure_eq_ok]

lemma yields_isYounger (ha : a.age ≤ maxAge) {k : Nat} (hk : k ≤ maxAge) :
    Yields n a (isYounger k).toExpr (.bool (decide (a.age < k))) := by
  intro f hf
  rw [isYounger, Chain.toExpr, Chain.toExpr, Chain.toExpr, Expr.seeing, Expr.map, Expr.eval,
    show ((Expr.access () age).map fun _ => _).eval layout f = _ from yields_age f hf,
    show ((numeral k).map fun _ => _).eval layout f = _ from yields_numeral k f hf]
  simp [ BinaryOp.apply?, BinaryOp.applyInt?, Value.intPart, ofNat_lt_ofNat ha hk, pure_eq_ok]

lemma yields_isTotal (hn : n ≤ 8) {k : Int} (hk : 0 ≤ k ∧ k ≤ 8) :
    Yields n a (isTotal k).toExpr (.bool (decide ((n : Int) = k))) := by
  intro f hf
  have heq : Int32.ofNat n = Int32.ofNat k.toNat ↔ (n : Int) = k := by
    rw [ofNat_eq_ofNat (by rw [maxAge]; omega) (by rw [maxAge]; omega)]
    omega
  rw [isTotal, Chain.toExpr, Chain.toExpr, Chain.toExpr, Expr.seeing, Expr.map, Expr.eval,
    show ((Expr.access () ⟨neighbours.name, []⟩).map fun _ => _).eval layout f = _ from
      yields_total f hf,
    show ((numeral k.toNat).map fun _ => _).eval layout f = _ from yields_numeral _ f hf]
  simp [ BinaryOp.apply?, Value.same, heq]

/-- **The condition over a list of totals is membership.** -/
lemma yields_isAnyOf (hn : n ≤ 8) {totals : List Int} (h : ∀ k ∈ totals, 0 ≤ k ∧ k ≤ 8) :
    Yields n a (isAnyOf totals).toExpr (.bool (decide ((n : Int) ∈ totals))) := by
  have hor : ∀ (more : List Int) (c : Chain Unit) (p : Prop) [Decidable p],
      (∀ k ∈ more, 0 ≤ k ∧ k ≤ 8) → Yields n a c.toExpr (.bool (decide p)) →
      Yields n a (more.foldl (fun c k => .node () .or c (isTotal k)) c).toExpr
        (.bool (decide (p ∨ (n : Int) ∈ more))) := by
    intro more
    induction more with
    | nil => exact fun c p _ _ hc => by simpa using hc
    | cons k more ih =>
        intro c p _ hmore hc
        rw [List.forall_mem_cons] at hmore
        have hwhole := ih (.node () .or c (isTotal k)) _ hmore.2 (hc.or (yields_isTotal hn hmore.1))
        simpa [or_assoc] using hwhole
  cases totals with
  | nil => exact fun f _ => rfl
  | cons k more =>
      rw [List.forall_mem_cons] at h
      have hwhole := hor more _ _ h.2 (yields_isTotal hn h.1)
      simp only [List.mem_cons]
      exact hwhole

lemma yields_survives {r : Ruleset} (h : r.InRange) (hn : n ≤ 8) (ha : a.age ≤ maxAge) :
    Yields n a r.survives.toExpr (.bool (decide ((n : Int) ∈ r.survive ∧
      (r.naturalDeath = 0 ∨ (a.age : Int) < r.naturalDeath)))) := by
  have htotals := yields_isAnyOf (a := a) hn h.survive
  have hrange := h.naturalDeath
  rw [survives]
  split_ifs with hlimit
  · have hyounger := yields_isYounger (n := n) ha (k := r.naturalDeath.toNat) (by omega)
    have hiff : (r.naturalDeath = 0 ∨ (a.age : Int) < r.naturalDeath) ↔
        a.age < r.naturalDeath.toNat := by omega
    simp only [hiff]
    exact htotals.and hyounger
  · have hzero : r.naturalDeath = 0 := by omega
    simpa [hzero] using htotals

end Conditions

/-! ## Statements

A store changes one of the two values of the life and keeps the other.
-/

/-- The statement makes a cell of the life `a` one of the life `a'`, where it has `n` live
neighbours. -/
structure Makes (n : Nat) (s : Stmt Unit) (a a' : Life) : Prop where
  scope : (s.seeing scope).after scope = scope
  exec : ∀ f, Shows n a f → ∃ f', Stmt.exec layout (s.seeing Ruleset.scope) f = .ok f' ∧ Shows n a' f'

/-- The same for statements in turn. -/
def AllMake (n : Nat) (ss : List (Stmt Unit)) (a a' : Life) : Prop :=
  ∀ f, Shows n a f →
    ∃ f', Stmt.execAll layout (Stmt.allSeeing scope ss) f = .ok f' ∧ Shows n a' f'

section Statements

variable {n : Nat} {a a' a'' : Life} {s : Stmt Unit} {ss : List (Stmt Unit)}

lemma AllMake.nil : AllMake n [] a a := fun f hf => ⟨f, rfl, hf⟩

lemma AllMake.cons (h : Makes n s a a') (hs : AllMake n ss a' a'') : AllMake n (s :: ss) a a'' := by
  intro f hf
  obtain ⟨f', hf', hshows⟩ := h.exec f hf
  obtain ⟨f'', hf'', hshows'⟩ := hs f' hshows
  refine ⟨f'', ?_, hshows'⟩
  rw [Stmt.allSeeing, Stmt.execAll, hf', ok_bind, h.scope, hf'']

lemma AllMake.block (h : AllMake n ss a a') : Makes n (.block () ss) a a' where
  scope := by rw [Stmt.seeing, Stmt.after]; simp
  exec f hf := by
    rw [Stmt.seeing, Stmt.exec]
    exact h f hf

/-- A condition makes what the branch makes that it takes. -/
lemma Makes.branch {test : Expr Unit} {yes no : Stmt Unit} {v : Bool}
    (htest : Yields n a test (.bool v)) (hyes : v = true → Makes n yes a a')
    (hno : v = false → Makes n no a a') : Makes n (.branch () test yes no) a a' where
  scope := by rw [Stmt.seeing, Stmt.after]; simp
  exec f hf := by
    rw [Stmt.seeing, Stmt.exec, htest f hf, ok_bind]
    cases v with
    | true => exact (hyes rfl).exec f hf
    | false => exact (hno rfl).exec f hf

lemma Makes.when {test : Expr Unit} {body : Stmt Unit} {v : Bool}
    (htest : Yields n a test (.bool v)) (hyes : v = true → Makes n body a a')
    (hno : v = false → a = a') : Makes n (.when () test body) a a' where
  scope := by rw [Stmt.seeing, Stmt.after]; simp
  exec f hf := by
    rw [Stmt.seeing, Stmt.exec, htest f hf, ok_bind]
    cases v with
    | true => exact (hyes rfl).exec f hf
    | false => exact ⟨f, rfl, hno rfl ▸ hf⟩

/-- Writing an age does not touch the flag. -/
lemma lifeOf_set_age (r : Record) {k : Nat} (hk : k ≤ maxAge) :
    lifeOf (ageField.set r (Int32.ofNat k).toUInt32) = { lifeOf r with age := k } := by
  have hage := Field.get_set_self ageField_separate r (Int32.ofNat k).toUInt32
  rw [toNat_toUInt32_ofNat hk, show 2 ^ ageField.width = maxAge + 1 by decide,
    Nat.mod_eq_of_lt (Nat.lt_succ_of_le hk)] at hage
  have hflag := (Layout.accessors_lawful pack_layout).2 ageField ageField_mem aliveField
    aliveField_mem (by decide) r (Int32.ofNat k).toUInt32 0
  rw [lifeOf, lifeOf, hage, hflag.1]

/-- Writing the flag does not touch the age. -/
lemma lifeOf_set_alive (r : Record) (v : Bool) :
    lifeOf (aliveField.set r (Value.bool v).toInt.toUInt32) = { lifeOf r with alive := v } := by
  have hflag := Field.get_set_self (Layout.separate_of_pack pack_layout aliveField_mem) r
    (Value.bool v).toInt.toUInt32
  have hage := (Layout.accessors_lawful pack_layout).2 aliveField aliveField_mem ageField
    ageField_mem (by decide) r (Value.bool v).toInt.toUInt32 0
  have hbit : (aliveField.get (aliveField.set r (Value.bool v).toInt.toUInt32) != 0) = v := by
    rw [Bool.eq_iff_iff, bne_iff_ne, Ne, ← UInt32.toNat_inj, hflag]
    cases v <;> decide
  rw [lifeOf, lifeOf, hbit, hage.1]

/-- The frame with another age in its cell. -/
def setAge (f : Frame) (k : Nat) : Frame :=
  { f with cell := ageField.set f.cell (Int32.ofNat k).toUInt32 }

/-- The frame with another flag in its cell. -/
def setAlive (f : Frame) (v : Bool) : Frame :=
  { f with cell := aliveField.set f.cell (Value.bool v).toInt.toUInt32 }

lemma Shows.setAge {f : Frame} (h : Shows n a f) {k : Nat} (hk : k ≤ maxAge) :
    Shows n { a with age := k } (setAge f k) :=
  ⟨h.life ▸ lifeOf_set_age f.cell hk, h.total⟩

lemma Shows.setAlive {f : Frame} (h : Shows n a f) (v : Bool) :
    Shows n { a with alive := v } (setAlive f v) :=
  ⟨h.life ▸ lifeOf_set_alive f.cell v, h.total⟩

lemma assign_age (f : Frame) (note : Note) (k : Nat) :
    f.assign layout note age (.int (Int32.ofNat k)) = .ok (setAge f k) := rfl

lemma assign_alive (f : Frame) (note : Note) (v : Bool) :
    f.assign layout note alive (.bool v) = .ok (setAlive f v) := rfl

lemma makes_become (v : Bool) : Makes n (become v) a { a with alive := v } where
  scope := by rw [become, Stmt.seeing, Stmt.after]; simp
  exec f hf := by
    refine ⟨setAlive f v, ?_, hf.setAlive v⟩
    rw [become, Stmt.seeing, Stmt.exec]
    exact assign_alive f { scope } v

lemma makes_rejuvenate : Makes n rejuvenate a { a with age := 0 } where
  scope := by rw [rejuvenate, Stmt.seeing, Stmt.after]; simp
  exec f hf := by
    refine ⟨setAge f 0, ?_, hf.setAge (Nat.zero_le _)⟩
    rw [rejuvenate, Stmt.seeing, Stmt.exec]
    exact assign_age f { scope } 0

lemma makes_grow (ha : a.age < maxAge) : Makes n grow a { a with age := a.age + 1 } where
  scope := by rw [grow, Stmt.seeing, Stmt.after]; simp
  exec f hf := by
    have hage : f.access layout { scope } age = .ok (.int (Int32.ofNat a.age)) := yields_age f hf
    have hsum : BinaryOp.add.apply? (.int (Int32.ofNat a.age)) (.int (Int32.ofNat 1))
        = some (.int (Int32.ofNat (a.age + 1))) := by
      rw [Int32.ofNat_add]
      rfl
    refine ⟨setAge f (a.age + 1), ?_, hf.setAge ha⟩
    rw [grow, Stmt.seeing, Stmt.exec, yields_numeral 1 f hf, ok_bind, AssignOp.eval]
    simp only [AssignOp.binaryOp?, hage, ok_bind, hsum]
    exact assign_age f { scope } (a.age + 1)

/-! ## The program

The cases of the program are those of the specification.
-/

lemma death_makes {r : Ruleset} (h : r.InRange) (ha : a.age ≤ maxAge) (halive : a.alive = true) :
    AllMake n r.death a
      (if (a.age : Int) < r.starve then ⟨true, a.age + 1⟩ else ⟨false, 0⟩) := by
  have hrange := h.starve
  have hdies : AllMake n [become false, rejuvenate] a ⟨false, 0⟩ :=
    .cons (makes_become false) (.cons makes_rejuvenate .nil)
  rw [death]
  split_ifs with hdelay hyoung hyoung
  · have hgrow : Makes n grow a ⟨true, a.age + 1⟩ := by
      have hgrow := makes_grow (n := n) (a := a) (by omega)
      rwa [halive] at hgrow
    refine .cons (.branch (yields_isYounger ha (by omega)) ?_ ?_) .nil
    · exact fun _ => AllMake.block (.cons hgrow .nil)
    · intro hold
      rw [decide_eq_false_iff_not] at hold
      omega
  · refine .cons (.branch (yields_isYounger ha (by omega)) ?_ ?_) .nil
    · intro hage
      rw [decide_eq_true_eq] at hage
      omega
    · exact fun _ => hdies.block
  · omega
  · exact hdies

/-- **The program of a ruleset makes one generation of a cell.** -/
theorem rule_makes {r : Ruleset} (h : r.InRange) (hn : n ≤ 8) (ha : a.age ≤ maxAge) :
    AllMake n r.rule a (r.next n a) := by
  rw [rule, next]
  refine .cons (.branch yields_alive ?_ ?_) .nil
  · intro halive
    rw [if_pos halive]
    refine AllMake.block (.cons (.branch (yields_survives h hn ha).not ?_ ?_) .nil)
    · intro hdies
      rw [decide_eq_true_eq] at hdies
      rw [if_neg hdies]
      exact (death_makes h ha halive).block
    · intro hlives
      rw [decide_eq_false_iff_not, not_not] at hlives
      rw [if_pos hlives]
      refine .when (yields_isYounger ha (Nat.le_refl _)) ?_ ?_
      · intro hyoung
        rw [decide_eq_true_eq] at hyoung
        have hgrow := makes_grow (n := n) hyoung
        rw [halive] at hgrow
        rw [Nat.min_eq_left hyoung]
        exact AllMake.block (.cons hgrow .nil)
      · intro hold
        rw [decide_eq_false_iff_not] at hold
        rw [Nat.min_eq_right (by omega)]
        cases a
        simp only at halive ha hold
        rw [halive, Life.mk.injEq]
        exact ⟨rfl, by omega⟩
  · intro hdead
    rw [hdead, if_neg (by decide)]
    refine AllMake.block (.cons makes_rejuvenate (.cons
      (.when (yields_isAnyOf hn h.birth) ?_ ?_) .nil))
    · intro hbirth
      rw [hbirth]
      exact AllMake.block (.cons (makes_become true) .nil)
    · intro hno
      rw [hno, hdead]

end Statements

end Ruleset

end Cellular
