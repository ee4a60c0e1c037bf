import Cellular.Proofs.Layout.Lenses
import Cellular.Proofs.Machine.Run

/-!
# What a cell depends on

The next record of a cell depends on the declared fields of the cell and of the cells that its
kernels reach, and on nothing else.  A rule starts on a copy of the whole cell, bits outside all
fields included, so the proof follows two runs side by side: their cells may differ, but every field
reads alike in both (`Layout.Agree`), and then so does every expression.

* `Frame.Agree` relates the two runs; `Expr.eval_agree` evaluates an expression and
  `Stmt.exec_agree` runs a statement in both.
* `Machine.clean_agree`: what a step keeps of the cell is the same.
* `Kernel.Reaches` are the places that a kernel reads; `Machine.count_agree` counts on two boards.
* `Compiled.step_local` is the statement for a step.

The statement is about two boards of the same size that may differ anywhere else.  What makes it
more than a remark on the arguments of a function is the copy of the cell that a rule starts on.  A
record has bits that belong to no field; they differ in the two runs and are carried along by every
assignment, and they must not reach the result.  A step therefore clears them at its end, and the
fields, which agree, determine what is left.
-/

namespace Cellular

/-! ## Records and frames that agree

Frames agree if all that a rule can ask of them is the same.  Locals and counts are equal outright,
as they hold values and no records.
-/

/-- Every declared field has the same value in both records. -/
def Layout.Agree (l : Layout) (r s : Record) : Prop := ∀ f ∈ l.fields, f.get r = f.get s

/-- The same value in a field keeps records in agreement: the field then reads alike, and the others
do not see it. -/
lemma Layout.Agree.set {specs : List FieldSpec} {l : Layout} (hl : Layout.pack specs = .ok l)
    {r s : Record} (h : l.Agree r s) {f : Field} (hf : f ∈ l.fields) (v : UInt32) :
    l.Agree (f.set r v) (f.set s v) := by
  intro g hg
  have hsep := Layout.separate_of_pack hl hf
  by_cases hname : f.name = g.name
  · obtain rfl := List.inj_on_of_nodup_map (Layout.nodup_names_of_pack hl) hf hg hname
    apply UInt32.toNat_inj.mp
    rw [Field.get_set_self hsep, Field.get_set_self hsep]
  · have hdisjoint := Layout.disjoint_of_pack hl hf hg hname
    have hsep' := Layout.separate_of_pack hl hg
    rw [Field.get_set_of_disjoint hsep hsep' hdisjoint,
      Field.get_set_of_disjoint hsep hsep' hdisjoint]
    exact h g hg

/-- Two runs of a rule that agree: only bits outside all fields may differ. -/
structure Frame.Agree (l : Layout) (f g : Frame) : Prop where
  cell : l.Agree f.cell g.cell
  prev : l.Agree f.prev g.prev
  counts : f.counts = g.counts
  locals : f.locals = g.locals

variable {l : Layout} {f g : Frame}

lemma Layout.Agree.read {r s : Record} (h : l.Agree r s) (pos : Position) (name : String) :
    l.read pos r name = l.read pos s name := by
  rw [Layout.read, Layout.read]
  cases hd : l.field? name with
  | none => rfl
  | some d => simp only [Field.value, h d (Layout.mem_of_field? hd).1]

lemma Frame.Agree.access (h : f.Agree l g) (n : Note) (path : Path) :
    f.access l n path = g.access l n path := by
  simp only [Frame.access, h.counts, h.locals, h.cell.read, h.prev.read]

/-- **An expression has the same value in both runs**, or the same error. -/
theorem Expr.eval_agree (h : f.Agree l g) (e : Expr Note) : e.eval l f = e.eval l g := by
  induction e with
  | ternary n test yes no ihtest ihyes ihno => simp only [Expr.eval, ihtest, ihyes, ihno]
  | binary n op left right ihleft ihright => simp only [Expr.eval, ihleft, ihright]
  | unary n op operand ih => simp only [Expr.eval, ih]
  | cast n target operand ih => simp only [Expr.eval, ih]
  | int n v text => rfl
  | float n v text => rfl
  | bool n v => rfl
  | access n path => exact h.access n path

/-! ## Statements

Two runs are followed by one induction.  Its hypothesis is that the first run succeeds, and it gives
the second run with frames that agree, so that the next statement can go on from there.
-/

lemma Frame.Agree.store (h : f.Agree l g) (slot : Slot) (v : Value) :
    (f.store slot v).Agree l (g.store slot v) where
  cell := h.cell
  prev := h.prev
  counts := h.counts
  locals := by simp only [Frame.store, h.locals]

/-- A store keeps two runs in agreement, into a variable as well as into a field. -/
lemma Frame.Agree.assign {specs : List FieldSpec} (hl : Layout.pack specs = .ok l)
    (h : f.Agree l g) {n : Note} {target : Path} {v : Value} {f' : Frame}
    (hf : f.assign l n target v = .ok f') : ∃ g', g.assign l n target v = .ok g' ∧ f'.Agree l g' := by
  unfold Frame.assign at hf ⊢
  split at hf
  · split at hf
    · split_ifs at hf with hassign
      · cases hf
        exact ⟨_, if_pos hassign, h.store _ v⟩
      · cases hf
    · cases hf
  · split_ifs at hf with hcell
    · rw [Frame.write] at hf
      split at hf
      · rename_i d hd
        cases hf
        refine ⟨_, by rw [if_pos hcell, Frame.write, hd], ?_⟩
        exact ⟨h.cell.set hl (Layout.mem_of_field? hd).1 _, h.prev, h.counts, h.locals⟩
      · cases hf
    · cases hf
  · cases hf

mutual

/-- **A statement keeps two runs in agreement.** -/
theorem Stmt.exec_agree {specs : List FieldSpec} (hl : Layout.pack specs = .ok l) :
    ∀ {s : Stmt Note} {f g f' : Frame}, f.Agree l g → Stmt.exec l s f = .ok f' →
      ∃ g', Stmt.exec l s g = .ok g' ∧ f'.Agree l g'
  | .block n body, f, g, f', h, hf => by
      rw [Stmt.exec] at hf ⊢
      exact Stmt.execAll_agree hl h hf
  | .declare n type name init, f, g, f', h, hf => by
      simp only [Stmt.exec, bind_eq_ok, pure_eq_ok] at hf ⊢
      obtain ⟨v, hv, rfl⟩ := hf
      have hinit : evalInit l f n.type init = evalInit l g n.type init := by
        cases init with
        | none => rfl
        | some e => exact e.eval_agree h
      exact ⟨_, ⟨v, hinit ▸ hv, rfl⟩, h.store _ v⟩
  | .assign n m target op value, f, g, f', h, hf => by
      simp only [Stmt.exec, bind_eq_ok] at hf ⊢
      obtain ⟨v, hv, w, hw, hf⟩ := hf
      have hop : op.eval l f n m target v = op.eval l g n m target v := by
        simp only [AssignOp.eval, h.access]
      obtain ⟨g', hg, hagree⟩ := h.assign hl hf
      exact ⟨g', ⟨v, value.eval_agree h ▸ hv, w, hop ▸ hw, hg⟩, hagree⟩
  | .when n test body, f, g, f', h, hf => by
      simp only [Stmt.exec, bind_eq_ok] at hf
      obtain ⟨t, ht, hf⟩ := hf
      rw [test.eval_agree h] at ht
      rw [Stmt.exec, ht, ok_bind]
      split_ifs at hf ⊢
      · exact Stmt.exec_agree hl h hf
      · cases hf
        exact ⟨g, rfl, h⟩
  | .branch n test yes no, f, g, f', h, hf => by
      simp only [Stmt.exec, bind_eq_ok] at hf
      obtain ⟨t, ht, hf⟩ := hf
      rw [test.eval_agree h] at ht
      rw [Stmt.exec, ht, ok_bind]
      split_ifs at hf ⊢
      · exact Stmt.exec_agree hl h hf
      · exact Stmt.exec_agree hl h hf

/-- Statements in turn keep two runs in agreement. -/
theorem Stmt.execAll_agree {specs : List FieldSpec} (hl : Layout.pack specs = .ok l) :
    ∀ {ss : List (Stmt Note)} {f g f' : Frame}, f.Agree l g → Stmt.execAll l ss f = .ok f' →
      ∃ g', Stmt.execAll l ss g = .ok g' ∧ f'.Agree l g'
  | [], f, g, f', h, hf => by
      cases hf
      exact ⟨g, rfl, h⟩
  | s :: ss, f, g, f', h, hf => by
      simp only [Stmt.execAll, bind_eq_ok] at hf ⊢
      obtain ⟨f₁, hf₁, hf⟩ := hf
      obtain ⟨g₁, hg₁, h₁⟩ := Stmt.exec_agree hl h hf₁
      obtain ⟨g', hg, hagree⟩ := Stmt.execAll_agree hl h₁ hf
      exact ⟨g', ⟨g₁, hg₁, hg⟩, hagree⟩

end

/-- The fields of a record are kept. -/
lemma Machine.agree_clean {specs : List FieldSpec} (hl : Layout.pack specs = .ok l) (r : Record) :
    l.Agree (clean l r) r := by
  intro f hf
  have hsep := Layout.separate_of_pack hl hf
  have hfold : ∀ (gs : List Field) (out : Record), (∀ g ∈ gs, g ∈ l.fields) →
      (f ∈ gs ∨ f.get out = f.get r) →
        f.get (gs.foldl (fun out g => g.set out (g.get r)) out) = f.get r := by
    intro gs
    induction gs with
    | nil =>
        intro out _ hout
        exact hout.resolve_left List.not_mem_nil
    | cons g gs ih =>
        intro out hgs hout
        obtain ⟨hg, hmore⟩ := List.forall_mem_cons.mp hgs
        refine ih _ hmore ?_
        by_cases hname : g.name = f.name
        · obtain rfl := List.inj_on_of_nodup_map (Layout.nodup_names_of_pack hl) hg hf hname
          right
          apply UInt32.toNat_inj.mp
          -- what a field holds fits into it
          have hfits := Field.get_set_self hsep r (g.get r)
          rw [Field.set_get_self hsep] at hfits
          rw [Field.get_set_self hsep, ← hfits]
        · rw [Field.get_set_of_disjoint (Layout.separate_of_pack hl hg) hsep
            (Layout.disjoint_of_pack hl hg hf hname)]
          refine hout.imp_left fun hmem => ?_
          rcases List.mem_cons.mp hmem with rfl | hmem
          · exact absurd rfl hname
          · exact hmem
  exact hfold l.fields {} (fun _ hg => hg) (.inl hf)

/-- The fields of a record are all that is kept of it. -/
lemma Machine.clean_agree {r s : Record} (h : l.Agree r s) : clean l r = clean l s := by
  rw [clean, clean]
  exact List.foldl_ext _ _ _ fun out d hd => by rw [h d hd]

/-! ## Counts

The places that a kernel reads depend on the size of the board and on the place around which it
counts, not on any record.  A count on two boards of one size therefore goes through the same
visits, and it is enough that each of them weighs the same.
-/

/-- The place `(cx, cy)` is one that the kernel reads around `(x, y)`: what its policy makes of some
place of its window. -/
def Kernel.Reaches (k : Kernel) (width height : Nat) (x y cx cy : Int) : Prop :=
  ∃ ix < k.width, ∃ iy < k.height,
    k.overflow.locate width height (x + ix - k.offsetX) (y + iy - k.offsetY) = .ok (some (cx, cy))

/-- A kernel visits from each of its places what its policy makes of that place. -/
lemma Kernel.mem_visits {k : Kernel} {width height : Nat} {x y : Int} {visits : List Visit}
    (h : k.visits width height x y = .ok visits) :
    ∀ v ∈ visits, (v.ix < k.width ∧ v.iy < k.height) ∧
      k.overflow.locate width height (x + v.ix - k.offsetX) (y + v.iy - k.offsetY)
        = .ok (some (v.cx, v.cy)) := by
  have hfrom : ∀ {places : List (Nat × Nat)} {visits : List Visit},
      (∀ p ∈ places, p.1 < k.width ∧ p.2 < k.height) →
        k.visitsFrom width height x y places = .ok visits →
          ∀ v ∈ visits, (v.ix < k.width ∧ v.iy < k.height) ∧
            k.overflow.locate width height (x + v.ix - k.offsetX) (y + v.iy - k.offsetY)
              = .ok (some (v.cx, v.cy)) := by
    intro places
    induction places with
    | nil =>
        intro visits _ h
        cases h
        simp
    | cons p places ih =>
        intro visits hplaces h
        rw [List.forall_mem_cons] at hplaces
        simp only [Kernel.visitsFrom, bind_eq_ok] at h
        obtain ⟨place, hplace, others, hothers, h⟩ := h
        have hmore := ih hplaces.2 hothers
        split at h
        · rename_i cx cy
          cases h
          rw [List.forall_mem_cons]
          exact ⟨⟨hplaces.1, hplace⟩, hmore⟩
        · cases h
          exact hmore
  exact hfrom (fun p hp => mem_places hp) h

/-- A kernel visits places that it reaches. -/
lemma Kernel.reaches_of_mem_visits {k : Kernel} {width height : Nat} {x y : Int}
    {visits : List Visit} (h : k.visits width height x y = .ok visits) :
    ∀ v ∈ visits, k.Reaches width height x y v.cx v.cy := by
  intro v hv
  obtain ⟨⟨hx, hy⟩, hplace⟩ := Kernel.mem_visits h v hv
  exact ⟨v.ix, hx, v.iy, hy, hplace⟩

/-- Every declared field has the same value at `(x, y)` of both boards. -/
def Board.AgreeAt (l : Layout) (b d : Board) (x y : Int) : Prop :=
  ∀ f ∈ l.fields, (b.get? x y).map f.get = (d.get? x y).map f.get

lemma Board.AgreeAt.agree {b d : Board} {x y : Int} (h : b.AgreeAt l d x y) {r s : Record}
    (hr : b.get? x y = some r) (hs : d.get? x y = some s) : l.Agree r s := by
  intro f hf
  have := h f hf
  rwa [hr, hs, Option.map_some, Option.map_some, Option.some.injEq] at this

namespace Machine

variable {m : Machine} {b d : Board}

/-- A value function sees only the fields of the cell. -/
lemma weigh_agree {k : Kernel} {v : Visit} {r s : Record} (hr : b.get? v.cx v.cy = some r)
    (hs : d.get? v.cx v.cy = some s) (h : m.layout.Agree r s) : m.weigh b k v = m.weigh d k v := by
  have hframes : Frame.Agree m.layout { cell := r } { cell := s } := ⟨h, fun _ _ => rfl, rfl, rfl⟩
  rw [weigh, weigh, hr, hs]
  cases m.kernels.weight? k.index v.ix v.iy with
  | none => rfl
  | some weight => simp only [k.value.eval_agree hframes]

/-- A total depends on what the visits weigh only. -/
lemma total_map {k : Kernel} {α : Type} {f g : α → Visit} :
    ∀ {places : List α}, (∀ p ∈ places, m.weigh b k (f p) = m.weigh d k (g p)) →
      ∀ sum, m.total b k sum (places.map f) = m.total d k sum (places.map g)
  | [], _, _ => rfl
  | p :: places, h, sum => by
      rw [List.forall_mem_cons] at h
      simp only [List.map_cons, total, h.1, total_map h.2]

lemma total_agree {k : Kernel} {visits : List Visit}
    (h : ∀ v ∈ visits, m.weigh b k v = m.weigh d k v) (sum : Float32) :
    m.total b k sum visits = m.total d k sum visits := by
  have hmap := total_map (f := id) (g := id) h sum
  rwa [List.map_id] at hmap

/-- **A count is the same on boards that agree where the kernel reaches.** -/
lemma count_agree (hb : b.Full) (hd : d.Full) (hwidth : d.width = b.width)
    (hheight : d.height = b.height) (hw : 0 < b.width) (hh : 0 < b.height) {k : Kernel} {x y : Int}
    (h : ∀ cx cy, k.Reaches b.width b.height x y cx cy → b.AgreeAt m.layout d cx cy) :
    m.count b k x y = m.count d k x y := by
  obtain ⟨visits, hvisits, hinside⟩ := k.visits_onBoard hw hh x y
  have hweigh : ∀ v ∈ visits, m.weigh b k v = m.weigh d k v := by
    intro v hv
    obtain ⟨-, hcx, hcy⟩ := hinside v hv
    obtain ⟨r, hr⟩ := hb.get? hcx hcy
    obtain ⟨s, hs⟩ := hd.get? (hwidth ▸ hcx) (hheight ▸ hcy)
    exact weigh_agree hr hs ((h _ _ (Kernel.reaches_of_mem_visits hvisits v hv)).agree hr hs)
  simp only [count, hwidth, hheight, hvisits, ok_bind, total_agree hweigh]

lemma countAll_agree {x y : Int} :
    ∀ {ks : List Kernel}, (∀ k ∈ ks, m.count b k x y = m.count d k x y) →
      m.countAll b x y ks = m.countAll d x y ks
  | [], _ => rfl
  | k :: ks, h => by
      rw [List.forall_mem_cons] at h
      simp only [countAll, h.1, countAll_agree h.2]

/-- The next record of a cell is the same where counts and fields are. -/
lemma stepCell_agree {specs : List FieldSpec} (hl : Layout.pack specs = .ok m.layout) {x y : Int}
    {prev prev' r : Record} (hcounts : m.counts b x y = m.counts d x y)
    (hprev : b.get? x y = some prev) (hprev' : d.get? x y = some prev')
    (h : m.layout.Agree prev prev') (hr : m.stepCell b x y = .ok r) : m.stepCell d x y = .ok r := by
  simp only [stepCell, hprev, hprev', bind_eq_ok, mapError_eq_ok, pure_eq_ok] at hr ⊢
  obtain ⟨counts, hcount, f, hf, rfl⟩ := hr
  obtain ⟨g, hg, hagree⟩ := Stmt.execAll_agree hl (⟨h, h, rfl, rfl⟩ :
    Frame.Agree m.layout { cell := prev, prev, counts } { cell := prev', prev := prev', counts }) hf
  exact ⟨counts, hcounts ▸ hcount, g, hg, (clean_agree hagree.cell).symm⟩

end Machine

/-! ## Generations

That both steps succeed is not a hypothesis.  A compiled rule makes a step on every full board, so
the boards may be anything where the theorem does not look.  The example is a ring of five cells
whose two farthest ones are filled with bits that belong to no field.
-/

/-- **A step is local, and sees declared fields only.**  Two boards of one size agree in every
declared field at a place and at all places that a kernel reaches around it.  Then a step of a
compiled rule puts the same record there on both: cells that no kernel reaches, and bits that belong
to no field, make no difference. -/
theorem Compiled.step_local {config : Config} {c : Compiled} (h : config.compile = .ok c)
    {b d : Board} (hb : b.cells.size = b.width * b.height) (hd : d.cells.size = d.width * d.height)
    (hwidth : d.width = b.width) (hheight : d.height = b.height) {x y : Nat} (hx : x < b.width)
    (hy : y < b.height) (hself : b.AgreeAt c.layout d x y)
    (hseen : ∀ k ∈ c.kernels.kernels, ∀ cx cy : Int, k.Reaches b.width b.height x y cx cy →
      b.AgreeAt c.layout d cx cy) :
    ∃ b' d' r, c.machine.step b = .ok b' ∧ c.machine.step d = .ok d' ∧
      b'.get? x y = some r ∧ d'.get? x y = some r := by
  have hc := Config.wellFormed_of_compile h
  obtain ⟨specs, hpack⟩ := hc.packed
  obtain ⟨b', hstep, -⟩ := Machine.step_ok hc hb
  obtain ⟨d', hstep', -⟩ := Machine.step_ok hc hd
  have hx' : x < d.width := hwidth ▸ hx
  have hy' : y < d.height := hheight ▸ hy
  obtain ⟨r, hr, hget⟩ := Machine.get?_step hb hstep hx hy
  obtain ⟨r', hr', hget'⟩ := Machine.get?_step hd hstep' hx' hy'
  obtain ⟨prev, hprev⟩ := Board.Full.get? hb (x := x) (y := y) (by omega) (by omega)
  obtain ⟨prev', hprev'⟩ := Board.Full.get? hd (x := x) (y := y) (by omega) (by omega)
  have hcounts : c.machine.counts b x y = c.machine.counts d x y :=
    Machine.countAll_agree fun k hk => Machine.count_agree hb hd hwidth hheight
      (Nat.zero_lt_of_lt hx) (Nat.zero_lt_of_lt hy) (hseen k hk)
  have hsame := Machine.stepCell_agree (m := c.machine) hpack hcounts hprev hprev'
    (hself.agree hprev hprev') hr
  obtain rfl := Except.ok.inj (hsame.symm.trans hr')
  exact ⟨b', d', r, hstep, hstep', hget, hget'⟩

/-- Where the fields of the small rule lie, and the window of its kernel. -/
lemma Config.aging_window : ∃ c, Config.aging.compile = .ok c ∧
    (c.layout.fields, c.kernels.kernels.map fun k => (k.width, k.height, k.overflow))
      = ([⟨"alive", .flag, [⟨0, 0, 0⟩]⟩, ⟨"age", .number, [⟨0, 1, 7⟩, ⟨1, 0, 2⟩]⟩],
          [(3, 3, .wrap)]) :=
  exists_ok_of_toOption (by decide +kernel)

/-- Five cells in a ring. -/
def Board.ring : Board :=
  ⟨5, 1, #[⟨1, 0, 0, 0⟩, ⟨3, 0, 0, 0⟩, ⟨0, 0, 0, 0⟩, ⟨0, 0, 0, 0⟩, ⟨5, 0, 0, 0⟩]⟩

/-- The same ring around its first cell, but for bits of no field and for the two cells farthest
away. -/
def Board.farRing : Board :=
  ⟨5, 1, #[⟨1, 0, 7, 0⟩, ⟨3, 8, 0, 0⟩, ⟨9, 9, 9, 9⟩, ⟨1, 1, 1, 1⟩, ⟨5, 248, 0, 1⟩]⟩

/-- The first cells of two rings that differ in the middle only get the same record: their windows
reach across the seam, but not to the middle. -/
theorem Compiled.step_local_farRing :
    ∃ c, Config.aging.compile = .ok c ∧ Board.ring.AgreeAt c.layout .farRing 0 0 ∧
      ¬ Board.ring.AgreeAt c.layout .farRing 2 0 ∧
      ∃ b' d' r, c.machine.step .ring = .ok b' ∧ c.machine.step .farRing = .ok d' ∧
        b'.get? 0 0 = some r ∧ d'.get? 0 0 = some r := by
  obtain ⟨c, hc, hwindow⟩ := Config.aging_window
  obtain ⟨hfields, hkernels⟩ := Prod.mk.inj hwindow
  have hagree : ∀ cx ∈ [(4 : Int), 0, 1], Board.ring.AgreeAt c.layout .farRing cx 0 := by
    simp only [Board.AgreeAt, hfields]
    decide
  refine ⟨c, hc, hagree 0 (by decide), ?_, Compiled.step_local hc (b := .ring) (d := .farRing)
    rfl rfl rfl rfl (x := 0) (y := 0) (by decide) (by decide) (hagree 0 (by decide)) ?_⟩
  · rw [Board.AgreeAt, hfields]
    decide
  · rintro k hk cx cy ⟨ix, hix, iy, hiy, hplace⟩
    have hmem := List.mem_map_of_mem (f := fun k : Kernel => (k.width, k.height, k.overflow)) hk
    rw [hkernels, List.mem_singleton, Prod.mk.injEq, Prod.mk.injEq] at hmem
    obtain ⟨hwidth, hheight, hoverflow⟩ := hmem
    rw [hwidth] at hix
    have hcolumn : ((ix : Int) - 1) % 5 = cx ∧ 0 = cy := by
      simpa [Kernel.offsetX, Kernel.offsetY, hwidth, hheight, hoverflow, Overflow.locate,
        Grid.wrapOnto?, Board.ring] using hplace
    obtain ⟨rfl, rfl⟩ := hcolumn
    apply hagree
    interval_cases ix <;> decide

end Cellular
