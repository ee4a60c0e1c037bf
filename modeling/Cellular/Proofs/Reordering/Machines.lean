import Cellular.Proofs.Machine.Run
import Cellular.Proofs.Reordering.Kernels

/-!
# Running rules over layouts of the same fields

A rule does the same over two layouts of the same fields, whatever the places of fields and counts
are.

* `Frame.Alike` relates two frames that hold the same values by name.
* `Expr.eval_alike` and `Stmt.exists_exec`: the same bare tree, each time in its own scope, has the
  same value and leaves alike frames.
* `Compiled.Alike` relates two compiled rules; `Machine.counts_alike` and `Machine.step_alike` are
  about their counts and steps on boards that hold the same values.

Two runs over different layouts are compared by way of bare trees, which are given the names of the
one scope and of the other.  The checked rules themselves have different notes and could not be
compared directly.  The proofs have the shape of those for two boards under one rule: expressions
have the same value, statements keep frames alike, a count adds up the same values in the same
order, as a kernel visits the same places, and a step keeps boards alike.
-/

namespace Cellular

variable {l m : Layout} {s s' : Scope} {f g : Frame}

/-! ## Frames

The locals are equal, as variables have the same slots in both scopes.  Counts may be listed in
another order and are compared by name.
-/

/-- Two frames that hold the same by name. -/
structure Frame.Alike (l m : Layout) (f g : Frame) : Prop where
  cell : l.SameValues m f.cell g.cell
  prev : l.SameValues m f.prev g.prev
  counts : ∀ name, g.counts.lookup name = f.counts.lookup name
  locals : g.locals = f.locals

namespace Frame.Alike

/-- A name has the same value in alike scopes. -/
lemma access (hlm : l.Alike m) (hs : s.Alike l m s') (h : f.Alike l m g) (path : Path) :
    (f.access l { scope := s } path).toOption = (g.access m { scope := s' } path).toOption := by
  rw [Frame.access, Frame.access]
  rcases hs.find? path.root with ⟨hnone, hnone'⟩ | ⟨b, slot, b', slot', hb, hb', hassign, hslot, -⟩
  · rw [hnone, hnone']
  · rw [hb, hb']
    rcases path.rest with _ | ⟨field, _ | ⟨second, more⟩⟩
    · dsimp only
      rw [hassign, h.locals, h.counts]
      split_ifs with hvariable
      · rw [hslot hvariable]
      · cases f.counts.lookup path.root <;> rfl
    · dsimp only
      split_ifs
      · exact h.cell.read hlm _ _ field
      · exact h.prev.read hlm _ _ field
      · rfl
    · rfl

/-- The same value stored in a variable keeps frames alike. -/
lemma store (h : f.Alike l m g) (slot : Slot) (v : Value) :
    (f.store slot v).Alike l m (g.store slot v) :=
  ⟨h.cell, h.prev, h.counts, by simp only [Frame.store, h.locals]⟩

variable {specs specs' : List FieldSpec}

/-- The same value stored where a dotted name says keeps frames alike. -/
lemma exists_assign (hl : Layout.pack specs = .ok l) (hm : Layout.pack specs' = .ok m)
    (hlm : l.Alike m) (hs : s.Alike l m s') (h : f.Alike l m g) {target : Path} {v : Value}
    {f' : Frame} (hf : f.assign l { scope := s } target v = .ok f') :
    ∃ g', g.assign m { scope := s' } target v = .ok g' ∧ f'.Alike l m g' := by
  obtain ⟨root, rest⟩ := target
  rw [Frame.assign] at hf ⊢
  rcases rest with _ | ⟨field, _ | ⟨second, more⟩⟩
  · dsimp only at hf ⊢
    rcases hs.find? root with
      ⟨hnone, hnone'⟩ | ⟨b, slot, b', slot', hb, hb', hassign, hslot, -⟩
    · rw [hnone] at hf
      cases hf
    · rw [hb] at hf
      rw [hb']
      dsimp only at hf ⊢
      rw [hassign]
      split_ifs at hf ⊢ with hvariable
      · cases hf
        rw [hslot hvariable]
        exact ⟨_, rfl, h.store slot v⟩
      · cases hf
  · dsimp only at hf ⊢
    split_ifs at hf ⊢ with hroot
    · rw [Frame.write] at hf ⊢
      rcases hlm field with ⟨hnone, -⟩ | ⟨d, e, hd, he, hde⟩
      · rw [hnone] at hf
        cases hf
      · rw [hd] at hf
        rw [he]
        cases hf
        exact ⟨_, rfl, h.cell.set hl hm hd he hde _, h.prev, h.counts, h.locals⟩
    · cases hf
  · cases hf

end Frame.Alike

/-! ## Expressions

Errors are forgotten, since they may name other places.
-/

/-- **An expression has the same value in alike scopes**, if it has one. -/
theorem Expr.eval_alike (hlm : l.Alike m) (hs : s.Alike l m s') (h : f.Alike l m g)
    (e : Expr Unit) :
    ((e.seeing s).eval l f).toOption = ((e.seeing s').eval m g).toOption := by
  induction e with
  | ternary n test yes no ihtest ihyes ihno =>
      simp only [Expr.seeing, Expr.map, Expr.eval, toOption_bind, apply_ite Except.toOption]
        at ihtest ihyes ihno ⊢
      simp only [ihtest, ihyes, ihno]
  | binary n op left right ihleft ihright =>
      simp only [Expr.seeing, Expr.map, toOption_eval_binary] at ihleft ihright ⊢
      simp only [ihleft, ihright]
  | unary n op operand ih =>
      simp only [Expr.seeing, Expr.map, toOption_eval_unary] at ih ⊢
      rw [ih]
  | cast n target operand ih =>
      simp only [Expr.seeing, Expr.map, Expr.eval, toOption_bind] at ih ⊢
      simp only [ih]
  | int n v text => rfl
  | float n v text => rfl
  | bool n v => rfl
  | access n path => exact h.access hlm hs path

/-! ## Statements

The induction goes from the first run to the second one only; the relation is symmetric.
-/

/-- An assignment stores the same value in alike scopes. -/
lemma AssignOp.eval_alike (hlm : l.Alike m) (hs : s.Alike l m s') (h : f.Alike l m g)
    (op : AssignOp) (target : Path) (v : Value) :
    (op.eval l f { scope := s } { scope := s } target v).toOption
      = (op.eval m g { scope := s' } { scope := s' } target v).toOption := by
  rw [AssignOp.eval, AssignOp.eval]
  cases op.binaryOp? with
  | none => rfl
  | some b =>
      dsimp only
      rw [toOption_bind, toOption_bind, h.access hlm hs]

/-- A variable starts with the same value in alike scopes. -/
lemma evalInit_alike (hlm : l.Alike m) (hs : s.Alike l m s') (h : f.Alike l m g) (type : Ty)
    (init : Option (Expr Unit)) :
    (evalInit l f type (init.map (Expr.seeing s))).toOption
      = (evalInit m g type (init.map (Expr.seeing s'))).toOption := by
  cases init with
  | none => rfl
  | some e => exact Expr.eval_alike hlm hs h e

/-- The scopes behind a statement are alike. -/
lemma Scope.Alike.after (hs : s.Alike l m s') (stmt : Stmt Unit) :
    ((stmt.seeing s).after s).Alike l m ((stmt.seeing s').after s') := by
  cases stmt with
  | declare n type name init =>
      refine hs.declare name ?_
      cases htype : type.type? with
      | none => exact Kind.noConfusion
      | some t => exact TypeName.kind_ne_of_type? htype
  | block | assign | when | branch => exact hs

section Run

variable {specs specs' : List FieldSpec}

mutual

/-- **A statement that runs leaves alike frames in alike scopes.** -/
theorem Stmt.exists_exec (hl : Layout.pack specs = .ok l) (hm : Layout.pack specs' = .ok m)
    (hlm : l.Alike m) :
    ∀ {s s' : Scope} {f g f' : Frame} {stmt : Stmt Unit}, s.Alike l m s' → f.Alike l m g →
      Stmt.exec l (stmt.seeing s) f = .ok f' →
      ∃ g', Stmt.exec m (stmt.seeing s') g = .ok g' ∧ f'.Alike l m g'
  | s, s', f, g, f', .block n body, hs, hfg, h => by
      rw [Stmt.seeing, Stmt.exec] at h ⊢
      exact Stmt.exists_execAll hl hm hlm hs hfg h
  | s, s', f, g, f', .declare n type name init, hs, hfg, h => by
      simp only [Stmt.seeing, Stmt.exec, bind_eq_ok, pure_eq_ok] at h ⊢
      obtain ⟨v, hv, rfl⟩ := h
      refine ⟨_, ⟨v, ok_of_toOption_eq (evalInit_alike hlm hs hfg _ init) hv, rfl⟩, ?_⟩
      rw [hs.length]
      exact hfg.store s.length v
  | s, s', f, g, f', .assign n k target op value, hs, hfg, h => by
      simp only [Stmt.seeing, Stmt.exec, bind_eq_ok] at h ⊢
      obtain ⟨v, hv, w, hw, h⟩ := h
      obtain ⟨g', hg', halike⟩ := hfg.exists_assign hl hm hlm hs h
      exact ⟨g', ⟨v, ok_of_toOption_eq (Expr.eval_alike hlm hs hfg value) hv, w,
        ok_of_toOption_eq (AssignOp.eval_alike hlm hs hfg op target v) hw, hg'⟩, halike⟩
  | s, s', f, g, f', .when n test body, hs, hfg, h => by
      simp only [Stmt.seeing, Stmt.exec, bind_eq_ok] at h ⊢
      obtain ⟨t, ht, h⟩ := h
      have ht' := ok_of_toOption_eq (Expr.eval_alike hlm hs hfg test) ht
      split_ifs at h with htrue
      · obtain ⟨g', hg', halike⟩ := Stmt.exists_exec hl hm hlm hs hfg h
        exact ⟨g', ⟨t, ht', by rwa [if_pos htrue]⟩, halike⟩
      · cases h
        exact ⟨g, ⟨t, ht', by rw [if_neg htrue]; rfl⟩, hfg⟩
  | s, s', f, g, f', .branch n test yes no, hs, hfg, h => by
      simp only [Stmt.seeing, Stmt.exec, bind_eq_ok] at h ⊢
      obtain ⟨t, ht, h⟩ := h
      have ht' := ok_of_toOption_eq (Expr.eval_alike hlm hs hfg test) ht
      split_ifs at h with htrue
      · obtain ⟨g', hg', halike⟩ := Stmt.exists_exec hl hm hlm hs hfg h
        exact ⟨g', ⟨t, ht', by rwa [if_pos htrue]⟩, halike⟩
      · obtain ⟨g', hg', halike⟩ := Stmt.exists_exec hl hm hlm hs hfg h
        exact ⟨g', ⟨t, ht', by rwa [if_neg htrue]⟩, halike⟩

/-- The same for statements in turn. -/
theorem Stmt.exists_execAll (hl : Layout.pack specs = .ok l) (hm : Layout.pack specs' = .ok m)
    (hlm : l.Alike m) :
    ∀ {s s' : Scope} {f g f' : Frame} {stmts : List (Stmt Unit)}, s.Alike l m s' →
      f.Alike l m g → Stmt.execAll l (Stmt.allSeeing s stmts) f = .ok f' →
      ∃ g', Stmt.execAll m (Stmt.allSeeing s' stmts) g = .ok g' ∧ f'.Alike l m g'
  | s, s', f, g, f', [], hs, hfg, h => by
      cases h
      exact ⟨g, rfl, hfg⟩
  | s, s', f, g, f', stmt :: stmts, hs, hfg, h => by
      simp only [Stmt.allSeeing, Stmt.execAll, bind_eq_ok] at h ⊢
      obtain ⟨f₁, hf₁, h⟩ := h
      obtain ⟨g₁, hg₁, halike₁⟩ := Stmt.exists_exec hl hm hlm hs hfg hf₁
      obtain ⟨g', hg', halike⟩ := Stmt.exists_execAll hl hm hlm (hs.after stmt) halike₁ h
      exact ⟨g', ⟨g₁, hg₁, hg'⟩, halike⟩

end

end Run

/-! ## Boards

Boards are compared by what their cells hold by name.
-/

/-- Two boards of one size that hold the same values by name at every place. -/
structure Board.SameValues (l m : Layout) (b d : Board) : Prop where
  width : d.width = b.width
  height : d.height = b.height
  cell : ∀ x y : Nat, x < b.width → y < b.height → ∀ name,
    (b.get? x y).bind (l.get? · name) = (d.get? x y).bind (m.get? · name)

namespace Board.SameValues

variable {b d : Board}

lemma symm (h : SameValues l m b d) : SameValues m l d b where
  width := h.width.symm
  height := h.height.symm
  cell := fun x y hx hy name => (h.cell x y (h.width ▸ hx) (h.height ▸ hy) name).symm

/-- Whatever coordinates are looked up, the boards have no cell there or cells with the same
values. -/
lemma get? (h : SameValues l m b d) (hb : b.Full) (hd : d.Full) (x y : Int) :
    (b.get? x y = none ∧ d.get? x y = none) ∨
      ∃ r r', b.get? x y = some r ∧ d.get? x y = some r' ∧ l.SameValues m r r' := by
  have hsize : d.cells.size = b.cells.size := by rw [hb, hd, h.width, h.height]
  have hindex : d.index? x y = b.index? x y := by rw [Board.index?, Board.index?, h.width, hsize]
  rw [Board.get?, Board.get?, hindex]
  cases hnumber : b.index? x y with
  | none => exact .inl ⟨rfl, rfl⟩
  | some i =>
      have hi : i < b.cells.size := by
        rw [Board.index?] at hnumber
        simp only [Bool.and_eq_true, decide_eq_true_eq, Option.ite_none_right_eq_some,
          Option.some.injEq] at hnumber
        omega
      -- the cell stands at a place of the board, even if the coordinates name none
      obtain ⟨x', y', hplace, hx, hy⟩ := hb.place? hi
      obtain ⟨rfl, -⟩ := Grid.place?_eq_some.mp hplace
      have hi' : y' * b.width + x' < d.cells.size := hsize ▸ hi
      have hd' := hd.get?_eq (x := x') (y := y') (h.width ▸ hx) (h.height ▸ hy)
      rw [h.width] at hd'
      refine .inr ⟨b.cells[y' * b.width + x'], d.cells[y' * b.width + x'],
        Array.getElem?_eq_getElem hi, Array.getElem?_eq_getElem hi', ?_⟩
      intro name
      simpa only [hb.get?_eq hx hy, hd', Array.getElem?_eq_getElem hi,
        Array.getElem?_eq_getElem hi', Option.bind_some] using h.cell x' y' hx hy name

end Board.SameValues

/-! ## Counts

Within one kernel the order of visits is that of its matrix, which is the same for both.  Float sums
are therefore equal and not only close.
-/

/-- Two compiled rules over layouts of the same fields: the same kernels in any order, and the same
program, notes aside. -/
structure Compiled.Alike (c d : Compiled) : Prop where
  layout : c.layout.Alike d.layout
  kernels : c.kernels.Alike c.layout d.layout d.kernels
  program : Stmt.allBare d.program.body = Stmt.allBare c.program.body

lemma Compiled.Alike.symm {c d : Compiled} (h : c.Alike d) : d.Alike c :=
  ⟨h.layout.symm, h.kernels.symm, h.program.symm⟩

namespace Machine

variable {c d : Compiled} {b e : Board} {k k' : Kernel}

lemma total_alike :
    ∀ {visits : List Visit},
      (∀ v ∈ visits, (c.machine.weigh b k v).toOption = (d.machine.weigh e k' v).toOption) →
        ∀ sum,
          (c.machine.total b k sum visits).toOption = (d.machine.total e k' sum visits).toOption
  | [], _, _ => rfl
  | v :: visits, h, sum => by
      rw [List.forall_mem_cons] at h
      simp only [total, toOption_bind, h.1, total_alike h.2]

/-- Counts are listed with the names of their kernels, in the order of the kernels. -/
lemma countAll_eq_ok_iff {m : Machine} {x y : Int} {kernels : List Kernel} :
    ∀ {vs : List (String × Value)}, m.countAll b x y kernels = .ok vs ↔
      List.Forall₂ (fun k v => v.1 = k.name ∧ m.count b k x y = .ok v.2) kernels vs := by
  induction kernels with
  | nil =>
      intro vs
      rw [countAll, List.forall₂_nil_left_iff, Except.ok.injEq, eq_comm]
  | cons k kernels ih =>
      intro vs
      simp only [countAll, bind_eq_ok, pure_eq_ok, List.forall₂_cons_left_iff, ih]
      constructor
      · rintro ⟨v, hv, more, hmore, rfl⟩
        exact ⟨(k.name, v), more, ⟨rfl, hv⟩, hmore, rfl⟩
      · rintro ⟨⟨_, v⟩, more, ⟨rfl, hv⟩, hmore, rfl⟩
        exact ⟨v, hv, more, hmore, rfl⟩

section Boards

variable (hc : c.WellFormed) (hd : d.WellFormed) (h : c.Alike d) (hb : b.Full) (he : e.Full)
  (hbe : b.SameValues c.layout d.layout e)

include hc hd h hb he hbe

/-- A visit weighs the same, if it weighs anything. -/
lemma weigh_alike (hk : k ∈ c.kernels.kernels) (hk' : k' ∈ d.kernels.kernels)
    (halike : Kernel.Alike c.layout d.layout k k') {v : Visit} (hx : v.ix < k.width)
    (hy : v.iy < k.height) :
    (c.machine.weigh b k v).toOption = (d.machine.weigh e k' v).toOption := by
  obtain ⟨hwidth, hheight⟩ := halike.size_eq
  simp only [weigh, Compiled.machine, hc.kernels.weight?_eq hk hx hy,
    hd.kernels.weight?_eq hk' (hwidth.symm ▸ hx) (hheight.symm ▸ hy), halike.entry_eq]
  rcases hbe.get? hb he v.cx v.cy with ⟨hr, hr'⟩ | ⟨r, r', hr, hr', hsame⟩
  · rw [hr, hr']
  · rw [hr, hr']
    have hframes : Frame.Alike c.layout d.layout { cell := r } { cell := r' } :=
      ⟨hsame, .empty h.layout, fun _ => rfl, rfl⟩
    have hvalue : (k.value.eval c.layout { cell := r }).toOption
        = (k'.value.eval d.layout { cell := r' }).toOption := by
      rw [Expr.eval_seeing (hc.kernels.checked k hk).typed,
        Expr.eval_seeing (hd.kernels.checked k' hk').typed, halike.bare_value]
      exact Expr.eval_alike h.layout (cellScope_alike _ _) hframes _
    simp only [toOption_bind, toOption_mapError, hvalue]

/-- **A kernel counts the same around every place**, if it counts anything. -/
theorem count_alike (hk : k ∈ c.kernels.kernels) (hk' : k' ∈ d.kernels.kernels)
    (halike : Kernel.Alike c.layout d.layout k k') (x y : Int) :
    (c.machine.count b k x y).toOption = (d.machine.count e k' x y).toOption := by
  rw [count, count, hbe.width, hbe.height, halike.visits_eq, halike.result_eq]
  cases hvisits : k.visits b.width b.height x y with
  | error err => rfl
  | ok visits =>
      have hweigh : ∀ v ∈ visits,
          (c.machine.weigh b k v).toOption = (d.machine.weigh e k' v).toOption := by
        intro v hv
        obtain ⟨⟨hx, hy⟩, -⟩ := Kernel.mem_visits hvisits v hv
        exact weigh_alike hc hd h hb he hbe hk hk' halike hx hy
      simp only [ok_bind, toOption_bind, total_alike hweigh]

/-- **Around every place the counts are the same by name.** -/
theorem counts_alike {x y : Int} {vs : List (String × Value)}
    (hvs : c.machine.counts b x y = .ok vs) :
    ∃ ws, d.machine.counts e x y = .ok ws ∧ ∀ name, ws.lookup name = vs.lookup name := by
  have hcounts := countAll_eq_ok_iff.mp hvs
  obtain ⟨kernels, hperm, hall⟩ := h.kernels
  obtain ⟨ws, hws, hpermValues⟩ := List.perm_comp_forall₂ hperm hcounts
  refine ⟨ws, countAll_eq_ok_iff.mpr ?_, ?_⟩
  · -- a weight is found by the place of its kernel in the set, so the pairs keep that they are in it
    have hpairs := forall₂_join
      ((List.forall₂_and_left _ _).mpr ⟨fun k hk => hperm.subset hk, hall⟩) hws
    refine ((List.forall₂_and_left _ _).mpr ⟨fun k' hk' => hk', hpairs⟩).imp ?_
    rintro k' ⟨name, v⟩ ⟨hk', k, ⟨hk, halike⟩, hname, hv⟩
    exact ⟨hname.trans halike.name_eq.symm,
      ok_of_toOption_eq (count_alike hc hd h hb he hbe hk hk' halike x y) hv⟩
  · have hnames : vs.map Prod.fst = c.kernels.kernels.map Kernel.name :=
      (map_eq_of_forall₂ hcounts fun _ _ hv => hv.1.symm).symm
    exact fun name => (lookup_perm hpermValues.symm (hnames ▸ hc.kernels.names_nodup) name).symm

/-! ## Generations

Both steps succeed, as compiled rules make a step on every full board.
-/

/-- The next records of a place hold the same values. -/
lemma stepCell_alike {x y : Int} {r : Record} (hr : c.machine.stepCell b x y = .ok r) :
    ∃ r', d.machine.stepCell e x y = .ok r' ∧ c.layout.SameValues d.layout r r' := by
  obtain ⟨specs, hl⟩ := hc.packed
  obtain ⟨specs', hm⟩ := hd.packed
  simp only [stepCell, bind_eq_ok] at hr ⊢
  obtain ⟨vs, hvs, hr⟩ := hr
  obtain ⟨ws, hws, hlookup⟩ := counts_alike hc hd h hb he hbe hvs
  rcases hbe.get? hb he x y with ⟨hnone, -⟩ | ⟨prev, prev', hprev, hprev', hsame⟩
  · rw [hnone] at hr
    cases hr
  · simp only [hprev, bind_eq_ok, mapError_eq_ok, pure_eq_ok, Compiled.machine] at hr
    obtain ⟨f, hf, rfl⟩ := hr
    have hbare := ok_of_toOption_eq (Stmt.execAll_seeing hc.typed) hf
    have hframes : Frame.Alike c.layout d.layout { cell := prev, prev, counts := vs }
        { cell := prev', prev := prev', counts := ws } := ⟨hsame, hsame, hlookup, rfl⟩
    obtain ⟨g, hg, hfg⟩ := Stmt.exists_execAll hl hm h.layout (h.kernels.rootScope hc.kernels)
      hframes hbare
    rw [← h.program] at hg
    refine ⟨clean d.layout g.cell, ⟨ws, hws, ?_⟩, hfg.cell.clean hl hm⟩
    simp only [hprev', bind_eq_ok, mapError_eq_ok, pure_eq_ok, Compiled.machine]
    exact ⟨g, ok_of_toOption_eq (Stmt.execAll_seeing hd.typed).symm hg, rfl⟩

/-- **Steps of boards that hold the same values give boards that hold the same values.** -/
theorem step_alike :
    ∃ b' e', c.machine.step b = .ok b' ∧ d.machine.step e = .ok e' ∧
      b'.width = b.width ∧ b'.height = b.height ∧ b'.SameValues c.layout d.layout e' := by
  obtain ⟨b', hb', hwidth, hheight, -⟩ := step_ok hc hb
  obtain ⟨e', he', hwidth', hheight', -⟩ := step_ok hd he
  refine ⟨b', e', hb', he', hwidth, hheight, by rw [hwidth', hwidth, hbe.width],
    by rw [hheight', hheight, hbe.height], ?_⟩
  intro x y hx hy name
  rw [hwidth] at hx
  rw [hheight] at hy
  obtain ⟨r, hr, hget⟩ := get?_step hb hb' hx hy
  obtain ⟨s, hs, hget'⟩ := get?_step he he' (x := x) (y := y) (hbe.width ▸ hx) (hbe.height ▸ hy)
  obtain ⟨s', hs', hsame⟩ := stepCell_alike hc hd h hb he hbe hr
  obtain rfl := Except.ok.inj (hs.symm.trans hs')
  rw [hget, hget', Option.bind_some, Option.bind_some]
  exact hsame name

end Boards

end Machine

end Cellular
