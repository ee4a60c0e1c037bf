import Cellular.Proofs.Machine.Locality

/-!
# What a step keeps

A rule changes a field of the cell by assigning to it, and in no other way: stores to other fields
may rewrite bytes that the field lies in, but not its bits, and at the end of a step the record is
built anew from what its fields hold.

* `Stmt.targets` are the targets of the assignments of a statement; `Stmt.get_exec` is what a run of
  the statement does to a field that is not among them.
* `Machine.bit_clean`: what is kept of a record has no bits outside its fields.
* `Compiled.step_keeps` is the statement for a step, `Compiled.run_keeps` the one for a run.

Fields share bytes, and a store rewrites whole bytes.  That the other fields in them are kept is a
law of packed layouts and holds for a single store; the induction carries it through a run.  It is
an induction on statements with both frames free, and the value of the field in the cell is the only
thing that it follows.  A target is compared with the field by its dotted name.

The last part of the statement is about bits that are no field's.  A rule could carry them along, or
even set them if they came with the board, but a step does not copy the record that the rule leaves.
-/

namespace Cellular

/-- The dotted name that an assignment to a field of the cell has on its left. -/
def Field.target (f : Field) : Path := ⟨cellName, [f.name]⟩

mutual

/-- The targets of all assignments in a statement, whether they are run or not. -/
def Stmt.targets {α : Type} : Stmt α → List Path
  | .block _ body => Stmt.targetsAll body
  | .declare .. => []
  | .assign _ _ target _ _ => [target]
  | .when _ _ body => Stmt.targets body
  | .branch _ _ yes no => Stmt.targets yes ++ Stmt.targets no

/-- The targets of all assignments in some statements. -/
def Stmt.targetsAll {α : Type} : List (Stmt α) → List Path
  | [] => []
  | s :: ss => Stmt.targets s ++ Stmt.targetsAll ss

end

section Frames

variable {specs : List FieldSpec} {l : Layout} {d : Field}

/-! ## Runs of a rule

A branch that is not taken counts as well.  A target is what is written in the program, so that the
condition can be read off it.
-/

/-- An assignment to something else keeps a field. -/
lemma Frame.get_assign (hl : Layout.pack specs = .ok l) (hd : d ∈ l.fields) {f f' : Frame} {n : Note}
    {target : Path} {v : Value} (htarget : d.target ≠ target) (h : f.assign l n target v = .ok f') :
    d.get f'.cell = d.get f.cell := by
  unfold Frame.assign at h
  split at h
  · split at h
    · split_ifs at h
      · cases h
        rfl
      · cases h
    · cases h
  · rename_i name hrest
    split_ifs at h with hcell
    · rw [Frame.write] at h
      split at h
      · rename_i g hg
        cases h
        obtain ⟨hmem, hname⟩ := Layout.mem_of_field? hg
        have hne : g.name ≠ d.name := by
          rintro heq
          apply htarget
          rw [Field.target, ← hcell, ← heq, hname, ← hrest]
        exact Field.get_set_of_disjoint (Layout.separate_of_pack hl hmem)
          (Layout.separate_of_pack hl hd) (Layout.disjoint_of_pack hl hmem hd hne) _ _
      · cases h
    · cases h
  · cases h

mutual

/-- **A statement keeps the fields that it does not assign to.** -/
theorem Stmt.get_exec (hl : Layout.pack specs = .ok l) (hd : d ∈ l.fields) :
    ∀ {s : Stmt Note} {f f' : Frame}, d.target ∉ s.targets → Stmt.exec l s f = .ok f' →
      d.get f'.cell = d.get f.cell
  | .block n body, f, f', htarget, h => by
      rw [Stmt.targets] at htarget
      rw [Stmt.exec] at h
      exact Stmt.get_execAll hl hd htarget h
  | .declare n type name init, f, f', _, h => by
      simp only [Stmt.exec, bind_eq_ok, pure_eq_ok] at h
      obtain ⟨v, -, rfl⟩ := h
      rfl
  | .assign n m target op value, f, f', htarget, h => by
      rw [Stmt.targets, List.mem_singleton] at htarget
      simp only [Stmt.exec, bind_eq_ok] at h
      obtain ⟨v, -, w, -, h⟩ := h
      exact Frame.get_assign hl hd htarget h
  | .when n test body, f, f', htarget, h => by
      rw [Stmt.targets] at htarget
      simp only [Stmt.exec, bind_eq_ok] at h
      obtain ⟨t, -, h⟩ := h
      split_ifs at h
      · exact Stmt.get_exec hl hd htarget h
      · cases h
        rfl
  | .branch n test yes no, f, f', htarget, h => by
      rw [Stmt.targets, List.mem_append, not_or] at htarget
      simp only [Stmt.exec, bind_eq_ok] at h
      obtain ⟨t, -, h⟩ := h
      split_ifs at h
      · exact Stmt.get_exec hl hd htarget.1 h
      · exact Stmt.get_exec hl hd htarget.2 h

/-- Statements in turn keep the fields that none of them assigns to. -/
theorem Stmt.get_execAll (hl : Layout.pack specs = .ok l) (hd : d ∈ l.fields) :
    ∀ {ss : List (Stmt Note)} {f f' : Frame}, d.target ∉ Stmt.targetsAll ss →
      Stmt.execAll l ss f = .ok f' → d.get f'.cell = d.get f.cell
  | [], f, f', _, h => by
      cases h
      rfl
  | s :: ss, f, f', htarget, h => by
      rw [Stmt.targetsAll, List.mem_append, not_or] at htarget
      simp only [Stmt.execAll, bind_eq_ok] at h
      obtain ⟨g, hg, h⟩ := h
      rw [Stmt.get_execAll hl hd htarget.2 h, Stmt.get_exec hl hd htarget.1 hg]

end

/-! ## Records

A record is built from an empty one by setting all fields, one after the other.  Bits outside all
fields are never set.
-/

/-- An empty record has no bits. -/
lemma Record.bit_empty (n : Nat) : ({} : Record).bit n = false := by
  have hbyte : ∀ b, ({} : Record).byte b = 0 := by
    intro b
    rcases b with _ | _ | _ | _ | b <;> rfl
  rw [Record.bit, hbyte]
  exact BitVec.getLsbD_zero

/-- **What is kept of a record has no bits outside its fields.** -/
theorem Machine.bit_clean (hl : Layout.pack specs = .ok l) (r : Record) {n : Nat}
    (hn : ∀ f ∈ l.fields, ∀ s ∈ f.spans, n ∉ s.bits) : (clean l r).bit n = false := by
  have hplaces : ∀ f ∈ l.fields, n ∉ f.places := by
    intro f hf hmem
    rw [f.places_perm.mem_iff, List.mem_flatMap] at hmem
    obtain ⟨s, hs, hbits⟩ := hmem
    exact hn f hf s hs hbits
  -- the record is built from an empty one, field by field
  have hfold : ∀ (fs : List Field) (out : Record), (∀ f ∈ fs, f ∈ l.fields) → out.bit n = false →
      (fs.foldl (fun out f => f.set out (f.get r)) out).bit n = false := by
    intro fs
    induction fs with
    | nil => exact fun out _ hout => hout
    | cons f fs ih =>
        intro out hfs hout
        rw [List.forall_mem_cons] at hfs
        refine ih _ hfs.2 ?_
        rw [Field.bit_set (Layout.separate_of_pack hl hfs.1), if_neg (hplaces f hfs.1), hout]
  exact hfold l.fields {} (fun _ hf => hf) (Record.bit_empty n)

end Frames

/-! ## Generations

A step is compared with its board cell by cell.  The cells are compared by their numbers here, as
none of them moves.
-/

namespace Machine

variable {m : Machine} {b b' : Board}

/-- A step makes no cells and loses none. -/
lemma size_step (h : m.step b = .ok b') : b'.cells.size = b.cells.size := by
  simp only [step, bind_eq_ok, pure_eq_ok] at h
  obtain ⟨rs, hrs, rfl⟩ := h
  rw [List.size_toArray, (stepCells_eq_ok hrs).1, List.length_range]

/-- What a step makes of the cell with a given number. -/
lemma getElem?_step (hb : b.Full) (h : m.step b = .ok b') {i : Nat} (hi : i < b.cells.size) :
    ∃ (x y : Nat) (r : Record), b.get? x y = b.cells[i]? ∧ m.stepCell b x y = .ok r ∧
      b'.cells[i]? = some r := by
  simp only [step, bind_eq_ok, pure_eq_ok] at h
  obtain ⟨rs, hrs, rfl⟩ := h
  obtain ⟨-, hall⟩ := stepCells_eq_ok hrs
  obtain ⟨x, y, r, hplace, hr, hget⟩ := hall i i (List.getElem?_range hi)
  obtain ⟨x', y', hplace', hx, hy⟩ := hb.place? hi
  obtain ⟨rfl, rfl⟩ := Prod.mk.inj (Option.some.inj (hplace.symm.trans hplace'))
  refine ⟨x, y, r, ?_, hr, by simpa using hget⟩
  rw [hb.get?_eq hx hy, (Grid.place?_eq_some.mp hplace).1]

/-- The next record of a cell is what is kept of some record. -/
lemma exists_clean_of_stepCell {x y : Int} {r : Record} (h : m.stepCell b x y = .ok r) :
    ∃ s, r = clean m.layout s := by
  simp only [stepCell, bind_eq_ok] at h
  obtain ⟨counts, -, h⟩ := h
  split at h
  · cases h
  · simp only [bind_eq_ok, pure_eq_ok] at h
    obtain ⟨f, -, rfl⟩ := h
    exact ⟨f.cell, rfl⟩

variable {specs : List FieldSpec} {d : Field}

/-- The next record of a cell has the old value in every field that the rule does not assign to. -/
lemma get_stepCell (hl : Layout.pack specs = .ok m.layout) (hd : d ∈ m.layout.fields)
    (htarget : d.target ∉ Stmt.targetsAll m.program.body) {x y : Int} {prev r : Record}
    (hprev : b.get? x y = some prev) (h : m.stepCell b x y = .ok r) : d.get r = d.get prev := by
  simp only [stepCell, hprev, bind_eq_ok, mapError_eq_ok, pure_eq_ok] at h
  obtain ⟨counts, -, f, hf, rfl⟩ := h
  rw [agree_clean hl f.cell d hd, Stmt.get_execAll hl hd htarget hf]

/-- A step keeps in all cells the fields that the rule does not assign to. -/
lemma map_get_step (hl : Layout.pack specs = .ok m.layout) (hb : b.Full) (h : m.step b = .ok b')
    (hd : d ∈ m.layout.fields) (htarget : d.target ∉ Stmt.targetsAll m.program.body) :
    b'.cells.map d.get = b.cells.map d.get := by
  have hsize := size_step h
  refine Array.ext_getElem? fun i => ?_
  rw [Array.getElem?_map, Array.getElem?_map]
  by_cases hi : i < b.cells.size
  · obtain ⟨x, y, r, hget, hr, hget'⟩ := getElem?_step hb h hi
    rw [Array.getElem?_eq_getElem hi] at hget ⊢
    rw [hget', Option.map_some, Option.map_some, get_stepCell hl hd htarget hget hr]
  · rw [Array.getElem?_eq_none (by omega), Array.getElem?_eq_none (by omega)]

/-- After a step no cell has bits outside the fields. -/
lemma bit_step (hl : Layout.pack specs = .ok m.layout) (hb : b.Full) (h : m.step b = .ok b')
    {n : Nat} (hn : ∀ f ∈ m.layout.fields, ∀ s ∈ f.spans, n ∉ s.bits) :
    ∀ r ∈ b'.cells, r.bit n = false := by
  intro r hr
  obtain ⟨i, hi, rfl⟩ := Array.mem_iff_getElem.mp hr
  obtain ⟨x, y, r, -, hstep, hget⟩ := getElem?_step hb h (size_step h ▸ hi)
  rw [Array.getElem?_eq_getElem hi, Option.some.injEq] at hget
  obtain ⟨s, rfl⟩ := exists_clean_of_stepCell hstep
  rw [hget]
  exact bit_clean hl s hn

end Machine

/-- **What a rule does not assign to is kept**, in every cell and over any number of generations. -/
theorem Compiled.run_keeps {config : Config} {c : Compiled} (h : config.compile = .ok c) {b : Board}
    (hb : b.cells.size = b.width * b.height) {f : Field} (hf : f ∈ c.layout.fields)
    (htarget : f.target ∉ Stmt.targetsAll c.program.body) (n : Nat) :
    ∃ b', c.machine.run b n = .ok b' ∧ b'.cells.map f.get = b.cells.map f.get := by
  have hc := Config.wellFormed_of_compile h
  obtain ⟨specs, hpack⟩ := hc.packed
  induction n generalizing b with
  | zero => exact ⟨b, rfl, rfl⟩
  | succ n ih =>
      obtain ⟨next, hnext, -, -, hfull⟩ := Machine.step_ok hc hb
      obtain ⟨last, hlast, hsame⟩ := ih hfull
      refine ⟨last, by rw [Machine.run, hnext, ok_bind, hlast], ?_⟩
      exact hsame.trans (Machine.map_get_step hpack hb hnext hf htarget)

/-- **A step keeps what the rule does not assign to, and nothing else gets in.**  On a board of any
size a field that no assignment of the rule names has its old value in every cell, whatever is
stored beside it; and no bit of the new board is set that belongs to no field. -/
theorem Compiled.step_keeps {config : Config} {c : Compiled} (h : config.compile = .ok c) {b : Board}
    (hb : b.cells.size = b.width * b.height) :
    ∃ b', c.machine.step b = .ok b' ∧ b'.width = b.width ∧ b'.height = b.height ∧
      (∀ f ∈ c.layout.fields, f.target ∉ Stmt.targetsAll c.program.body →
        b'.cells.map f.get = b.cells.map f.get) ∧
      ∀ r ∈ b'.cells, ∀ n, (∀ f ∈ c.layout.fields, ∀ s ∈ f.spans, n ∉ s.bits) → r.bit n = false := by
  have hc := Config.wellFormed_of_compile h
  obtain ⟨specs, hpack⟩ := hc.packed
  obtain ⟨b', hstep, hwidth, hheight, -⟩ := Machine.step_ok hc hb
  refine ⟨b', hstep, hwidth, hheight, ?_, ?_⟩
  · exact fun f hf htarget => Machine.map_get_step hpack hb hstep hf htarget
  · exact fun r hr n hn => Machine.bit_step hpack hb hstep hn r hr

/-- A rule that only lets a number grow, which begins in the byte of a flag. -/
def Config.growing : Config :=
  { state := [⟨"alive", "flag", 0⟩, ⟨"age", "number", 10⟩]
    program := "if (cell.alive) cell.age += 1;" }

set_option maxRecDepth 100000 in
lemma Config.growing_compiles : ∃ c, Config.growing.compile = .ok c ∧
    (c.layout.fields, Stmt.targetsAll c.program.body)
      = ([⟨"alive", .flag, [⟨0, 0, 0⟩]⟩, ⟨"age", .number, [⟨0, 1, 7⟩, ⟨1, 0, 2⟩]⟩],
          [⟨"cell", ["age"]⟩]) :=
  exists_ok_of_toOption (by decide +kernel)

/-- The flag stays as it is, and the bits behind the number are cleared. -/
theorem Compiled.step_keeps_growing :
    ∃ c b', Config.growing.compile = .ok c ∧
      c.machine.step ⟨2, 1, #[⟨255, 255, 255, 255⟩, ⟨2, 0, 0, 7⟩]⟩ = .ok b' ∧
      b'.cells.map (Field.get ⟨"alive", .flag, [⟨0, 0, 0⟩]⟩) = #[1, 0] ∧
      ∀ r ∈ b'.cells, r.bit 11 = false := by
  obtain ⟨c, hc, hplaced⟩ := Config.growing_compiles
  obtain ⟨hfields, htargets⟩ := Prod.mk.inj hplaced
  obtain ⟨b', hstep, -, -, hkept, hclean⟩ := Compiled.step_keeps hc
    (b := ⟨2, 1, #[⟨255, 255, 255, 255⟩, ⟨2, 0, 0, 7⟩]⟩) (by decide)
  refine ⟨c, b', hc, hstep, ?_, ?_⟩
  · rw [hkept _ (by simp [hfields]) (by rw [htargets]; decide), List.map_toArray]
    decide
  · intro r hr
    exact hclean r hr 11 (by rw [hfields]; decide)

end Cellular
