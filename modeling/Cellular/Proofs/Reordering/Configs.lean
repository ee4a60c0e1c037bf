import Cellular.Proofs.Reordering.Machines

/-!
# Configurations in another order

The order in which a configuration declares its state fields and its neighbour counts decides where
their bits and their weights go, and nothing else.

* `Config.Reordered` relates two configurations that differ in the order of declarations only.
* `Config.Reordered.exists_compile`: reordered configurations compile alike, and
  `Config.Reordered.alike_of_compile`: to alike rules.
* `Config.Reordered.behave_alike`: they make the same steps and the same counts.

Two permutations are made at once, that of the fields and that of the neighbour counts, and they
come together only here.  The way is always the same: from a relation between the inputs of a stage
to one between its results, up to compiled rules that are alike.  Since the relation is symmetric,
it is enough to show that what compiles in one order does so in the other; that the results are
alike is then shown for any two results.  Records of the two boards differ byte by byte.  They are
compared by what they hold under the name of each field, which is all that a user of either rule can
see.
-/

namespace Cellular

/-- The counts around `(x, y)` by the names of their kernels, if there are any. -/
def Machine.countsByName (m : Machine) (b : Board) (x y : Int) : Option (String → Option Value) :=
  (m.counts b x y).toOption.map fun counts name => counts.lookup name

namespace Config

/-- Two configurations that differ in the order of their state fields and neighbour counts only. -/
structure Reordered (c d : Config) : Prop where
  state : d.state.Perm c.state
  neighbourCounts : d.neighbourCounts.Perm c.neighbourCounts
  rest : d = { c with state := d.state, neighbourCounts := d.neighbourCounts }

namespace Reordered

variable {c d : Config} {r s : Compiled}

lemma symm (h : c.Reordered d) : d.Reordered c where
  state := h.state.symm
  neighbourCounts := h.neighbourCounts.symm
  rest := by rw [h.rest]

lemma program_eq (h : c.Reordered d) : d.program = c.program := by rw [h.rest]

/-- Fields that are packed for the one are packed for the other, to the same fields. -/
lemma exists_pack (h : c.Reordered d) {l : Layout}
    (hl : ∃ specs, c.fieldSpecs = .ok specs ∧ Layout.pack specs = .ok l) :
    ∃ m, (∃ specs, d.fieldSpecs = .ok specs ∧ Layout.pack specs = .ok m) ∧ l.Alike m := by
  obtain ⟨specs, hspecs, hpack⟩ := hl
  obtain ⟨specs', hspecs', hperm⟩ := StateField.specs_perm h.state hspecs
  obtain ⟨m, hm, halike⟩ := Layout.pack_perm hperm hpack
  exact ⟨m, ⟨specs', hspecs', hm⟩, halike⟩

/-- A program that is checked against the names of the one rule is checked against those of the
other, with the same code. -/
lemma exists_check {l m : Layout} {ks ks' : KernelSet} {p : Program Position} {p₁ : Program Note}
    (hlm : l.Alike m) (hks : ks.Alike l m ks') (hcompiled : ks.Compiled l.cellType)
    (h : p.check (rootScope l ks) = .ok p₁) :
    ∃ p₂, p.check (rootScope m ks') = .ok p₂ ∧
      ∀ cs, Stmt.toCodes ks p₁.body = .ok cs → Stmt.toCodes ks' p₂.body = .ok cs := by
  have hroot := hks.rootScope hcompiled
  simp only [Program.check, bind_eq_ok, pure_eq_ok] at h ⊢
  obtain ⟨body, hbody, rfl⟩ := h
  obtain ⟨body', hbody', hcodes⟩ := Stmt.exists_checkAll hlm hks.sameNames id hroot
    ((Stmt.mapAll_id p.body).symm ▸ hbody)
  exact ⟨⟨p.pos, body'⟩, ⟨body', hroot.length ▸ hbody', rfl⟩, hcodes⟩

/-- **A configuration that compiles does so in any order of its declarations.** -/
theorem exists_compile (h : c.Reordered d) (hc : c.compile = .ok r) : ∃ s, d.compile = .ok s := by
  obtain ⟨hl, hks, ⟨parsed, hparsed, hcheck⟩, hshader⟩ := compile_eq_ok_iff.mp hc
  obtain ⟨layout, hpacked, hlm⟩ := h.exists_pack hl
  obtain ⟨kernels, hkernels⟩ := KernelSet.compile_perm hlm h.neighbourCounts hks
  have halike := KernelSet.alike_of_compile h.neighbourCounts hks hkernels
  obtain ⟨program, hprogram, hcodes⟩ :=
    exists_check hlm halike (KernelSet.compiled_of_compile hks) hcheck
  obtain ⟨shader, hgenerated⟩ := Shader.exists_generate hlm halike hcodes hshader
  exact ⟨{ shader, layout, kernels, program }, compile_eq_ok_iff.mpr
    ⟨hpacked, hkernels, ⟨parsed, h.program_eq ▸ hparsed, hprogram⟩, hgenerated⟩⟩

/-- **Reordered configurations compile to alike rules.** -/
theorem alike_of_compile (h : c.Reordered d) (hc : c.compile = .ok r) (hd : d.compile = .ok s) :
    r.Alike s := by
  obtain ⟨hl, hks, ⟨parsed, hparsed, hcheck⟩, -⟩ := compile_eq_ok_iff.mp hc
  obtain ⟨⟨specs', hspecs', hpack'⟩, hks', ⟨parsed', hparsed', hcheck'⟩, -⟩ :=
    compile_eq_ok_iff.mp hd
  obtain ⟨m, ⟨specs, hspecs, hm⟩, hlm⟩ := h.exists_pack hl
  obtain rfl := Except.ok.inj (hspecs.symm.trans hspecs')
  obtain rfl := Except.ok.inj (hm.symm.trans hpack')
  rw [h.program_eq] at hparsed'
  obtain rfl := Except.ok.inj (hparsed.symm.trans hparsed')
  exact {
    layout := hlm
    kernels := KernelSet.alike_of_compile h.neighbourCounts hks hks'
    program := (Program.allBare_of_check hcheck').trans (Program.allBare_of_check hcheck).symm }

end Reordered

end Config

/-- Alike rules count the same by name, or both do not count. -/
lemma Machine.countsByName_alike {c d : Compiled} {b e : Board} (hc : c.WellFormed)
    (hd : d.WellFormed) (h : c.Alike d) (hb : b.Full) (he : e.Full)
    (hbe : b.SameValues c.layout d.layout e) (x y : Int) :
    d.machine.countsByName e x y = c.machine.countsByName b x y := by
  rw [countsByName, countsByName]
  cases hvs : c.machine.counts b x y with
  | ok vs =>
      obtain ⟨ws, hws, hlookup⟩ := counts_alike hc hd h hb he hbe hvs
      rw [hws]
      exact congrArg some (funext hlookup)
  | error err =>
      cases hws : d.machine.counts e x y with
      | error err' => rfl
      | ok ws =>
          obtain ⟨vs, hvs', -⟩ := counts_alike hd hc h.symm he hb hbe.symm hws
          rw [hvs] at hvs'
          cases hvs'

/-- **The order of declarations does not matter.**  Two configurations differ in the order of their
state fields and neighbour counts only.  Then both compile or none does, and the compiled rules do
the same on boards that hold the same values by name: a step gives boards that again hold the same
values, and around every place the counts have the same values by name. -/
theorem Config.Reordered.behave_alike {c d : Config} (h : c.Reordered d) :
    ((∃ r, c.compile = .ok r) ↔ ∃ s, d.compile = .ok s) ∧
    ∀ r s, c.compile = .ok r → d.compile = .ok s →
      ∀ b e : Board, b.cells.size = b.width * b.height → e.cells.size = e.width * e.height →
        b.SameValues r.layout s.layout e →
        (∃ b' e', r.machine.step b = .ok b' ∧ s.machine.step e = .ok e' ∧
          b'.width = b.width ∧ b'.height = b.height ∧ b'.SameValues r.layout s.layout e') ∧
        ∀ x y : Int, s.machine.countsByName e x y = r.machine.countsByName b x y ∧
          (0 < b.width → 0 < b.height → (r.machine.countsByName b x y).isSome) := by
  refine ⟨⟨fun ⟨r, hr⟩ => h.exists_compile hr, fun ⟨s, hs⟩ => h.symm.exists_compile hs⟩, ?_⟩
  intro r s hr hs b e hb he hbe
  have hc := Config.wellFormed_of_compile hr
  have hd := Config.wellFormed_of_compile hs
  have halike := h.alike_of_compile hr hs
  refine ⟨Machine.step_alike hc hd halike hb he hbe, ?_⟩
  intro x y
  refine ⟨Machine.countsByName_alike hc hd halike hb he hbe x y, ?_⟩
  intro hw hh
  obtain ⟨counts, hcounts, -⟩ := Machine.counts_counted hc hb hw hh x y
  rw [Machine.countsByName, hcounts]
  rfl

/-- A configuration with its declarations in the opposite order. -/
def Config.reversed (c : Config) : Config :=
  { c with state := c.state.reverse, neighbourCounts := c.neighbourCounts.reverse }

/-- A rule over two counts of different sizes and types. -/
def Config.crowding : Config :=
  { state := [⟨"alive", "flag", 0⟩, ⟨"age", "number", 10⟩]
    neighbourCounts := [⟨"n", [[1, 1, 1], [1, 0, 1], [1, 1, 1]], "cell.alive", "int", "wrap"⟩,
      ⟨"ages", [[1, 0, 1]], "cell.age", "float", "zero"⟩]
    program := "if (prev.alive) \x7b int n = n; cell.age += n; \x7d else cell.alive = ages > 2.5;" }

set_option maxRecDepth 100000 in
lemma Config.crowding_compiles : ∃ r, Config.crowding.compile = .ok r ∧
    r.layout = ⟨[⟨"alive", .flag, [⟨0, 0, 0⟩]⟩, ⟨"age", .number, [⟨0, 1, 7⟩, ⟨1, 0, 2⟩]⟩], 11⟩ :=
  exists_ok_of_toOption (by decide +kernel)

set_option maxRecDepth 100000 in
lemma Config.crowding_reversed_compiles : ∃ s, Config.crowding.reversed.compile = .ok s ∧
    s.layout = ⟨[⟨"age", .number, [⟨0, 0, 7⟩, ⟨1, 0, 1⟩]⟩, ⟨"alive", .flag, [⟨1, 2, 2⟩]⟩], 11⟩ :=
  exists_ok_of_toOption (by decide +kernel)

/-- A live cell of age 3 beside a dead one of age 0. -/
def Board.couple : Board := ⟨2, 1, #[⟨1, 3, 0, 0⟩, ⟨0, 0, 0, 0⟩]⟩

/-- The same two cells where the age stands before the flag. -/
def Board.reversedCouple : Board := ⟨2, 1, #[⟨0, 7, 0, 0⟩, ⟨0, 0, 0, 0⟩]⟩

/-- Two fields and two kernels in both orders, on two cells that crowd each other: the records differ
byte by byte, and the values in them do not. -/
theorem Config.Reordered.behave_alike_couple :
    ∃ r s, Config.crowding.compile = .ok r ∧ Config.crowding.reversed.compile = .ok s ∧
      Board.couple.SameValues r.layout s.layout .reversedCouple ∧
      (∃ b' e', r.machine.step .couple = .ok b' ∧ s.machine.step .reversedCouple = .ok e' ∧
        b'.width = 2 ∧ b'.height = 1 ∧ b'.SameValues r.layout s.layout e') ∧
      ∀ x y : Int,
        s.machine.countsByName .reversedCouple x y = r.machine.countsByName .couple x y ∧
          (0 < 2 → 0 < 1 → (r.machine.countsByName .couple x y).isSome) := by
  obtain ⟨r, hr, hl⟩ := Config.crowding_compiles
  obtain ⟨s, hs, hm⟩ := Config.crowding_reversed_compiles
  have hreordered : Config.crowding.Reordered Config.crowding.reversed :=
    ⟨List.reverse_perm _, List.reverse_perm _, rfl⟩
  have hlm := (hreordered.alike_of_compile hr hs).layout
  have hlive : Layout.SameValues r.layout s.layout ⟨1, 3, 0, 0⟩ ⟨0, 7, 0, 0⟩ := by
    refine .of_fields hlm ?_
    rw [hl, hm]
    decide
  have hsame : Board.couple.SameValues r.layout s.layout .reversedCouple := by
    refine ⟨rfl, rfl, ?_⟩
    intro x y hx hy
    change x < 2 at hx
    change y < 1 at hy
    obtain rfl : y = 0 := by omega
    obtain rfl | rfl : x = 0 ∨ x = 1 := by omega
    · exact hlive
    · exact Layout.SameValues.empty hlm
  exact ⟨r, s, hr, hs, hsame,
    (Config.Reordered.behave_alike hreordered).2 r s hr hs .couple .reversedCouple rfl rfl hsame⟩

end Cellular
