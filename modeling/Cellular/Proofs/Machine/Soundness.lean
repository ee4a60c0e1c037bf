import Cellular.Machine.Frame
import Cellular.Proofs.Rule.WellTyped
import Cellular.Proofs.Source.Spelling

/-!
# Well-typed rules have values

A frame fits a scope if it holds what the scope promises: every variable has a stored value of its
kind, and the other names are the cell, the cell as it was, or counts.  Statements keep this up, so
no expression of a well-typed rule fails to have a value of its type.

* `Frame.Fits` is the invariant; inner scopes fit into outer ones (`Frame.Fits.mono`).
* `Expr.eval_wellTyped` evaluates an expression, `Stmt.exec_wellTyped` runs a statement.
* `Stmt.evaluations` lists the expressions that a statement looks at, with the frames it does so in;
  by `Stmt.meets_of_mem_evaluations` and `Expr.Meets.safe` all of them have values of their types.

The check gives a scope to every node, and a run gives a frame to every node that it comes to; the
invariant ties the two together.  It never mentions the statements that came before, because what
they did is recorded in the scope: a name is in it only behind its declaration, and the declaration
has stored a value.  Whether a scope of a type check is a truthful account of the run is the whole
question here, and the cases in which it could fail to be one are the ends of blocks and branches,
where the scope becomes smaller while the frame keeps what it has.
-/

namespace Cellular

/-! ## Values

What is stored is compared with a type by its kind only.  Two struct types have one kind, but there
are no values of struct types, so for values the kind is the type.
-/

lemma Value.kind_eq_int {v : Value} (h : v.kind = .int) : ∃ i, v = .int i := by
  cases v with
  | int i => exact ⟨i, rfl⟩
  | float _ => cases h
  | bool _ => cases h
  | untyped _ _ _ => cases h

lemma Value.kind_eq_float {v : Value} (h : v.kind = .float) : ∃ f, v = .float f := by
  cases v with
  | float f => exact ⟨f, rfl⟩
  | int _ => cases h
  | bool _ => cases h
  | untyped _ _ _ => cases h

lemma Value.kind_eq_boolean {v : Value} (h : v.kind = .boolean) : ∃ b, v = .bool b := by
  cases v with
  | bool b => exact ⟨b, rfl⟩
  | int _ => cases h
  | float _ => cases h
  | untyped _ _ _ => cases h

/-- There are no values of struct types. -/
lemma Value.kind_ne_struct (v : Value) : v.kind ≠ .struct := by
  cases v <;> simp [Value.kind]

/-- Values of a numeric type are integers or floats. -/
lemma Value.numeric_cases {t : Ty} (ht : t.isNumeric) {v w : Value} (hv : v.kind = t.kind)
    (hw : w.kind = t.kind) :
    (t = .int ∧ ∃ a b, v = .int a ∧ w = .int b) ∨
      (t = .float ∧ ∃ a b, v = .float a ∧ w = .float b) := by
  cases t with
  | int =>
      obtain ⟨a, rfl⟩ := Value.kind_eq_int hv
      obtain ⟨b, rfl⟩ := Value.kind_eq_int hw
      exact .inl ⟨rfl, a, b, rfl, rfl⟩
  | float =>
      obtain ⟨a, rfl⟩ := Value.kind_eq_float hv
      obtain ⟨b, rfl⟩ := Value.kind_eq_float hw
      exact .inr ⟨rfl, a, b, rfl, rfl⟩
  | invalid | bool | struct | other => simp [Ty.isNumeric] at ht

/-- A variable without an initial value starts with a value of its type. -/
lemma Value.kind_zeroOf {type : TypeName} {t : Ty} (h : type.type? = some t) :
    (Value.zeroOf t).kind = t.kind := by
  cases type <;> simp only [TypeName.type?, Option.some.injEq, reduceCtorEq] at h <;>
    rw [← h] <;> rfl

/-- The types that a rule can name are scalar. -/
lemma TypeName.isScalar_of_type? {type : TypeName} {t : Ty} (h : type.type? = some t) :
    t.isScalar = true := by
  cases type <;> simp only [TypeName.type?, Option.some.injEq, reduceCtorEq] at h <;>
    rw [← h] <;> rfl

/-- A conversion gives a value of its target. -/
lemma Value.kind_convert {target : TypeName} {t : Ty} (h : target.type? = some t) (v : Value) :
    (v.convert target).kind = t.kind := by
  cases target <;> simp only [TypeName.type?, Option.some.injEq, reduceCtorEq] at h <;>
    rw [← h] <;> rfl

/-- Operators other than `&&` and `||` have values on operands of their types. -/
lemma BinaryOp.apply?_typed {op : BinaryOp} {t u : Ty} (h : op.Typed t u) (hor : op ≠ .or)
    (hand : op ≠ .and) {v w : Value} (hv : v.kind = t.kind) (hw : w.kind = t.kind) :
    ∃ x, op.apply? v w = some x ∧ x.kind = u.kind := by
  cases h with
  | or => exact absurd rfl hor
  | and => exact absurd rfl hand
  | eq => exact ⟨_, rfl, rfl⟩
  | ne => exact ⟨_, rfl, rfl⟩
  | order hop ht =>
      simp only [List.mem_cons, List.not_mem_nil, or_false] at hop
      rcases Value.numeric_cases ht hv hw with ⟨rfl, a, b, rfl, rfl⟩ | ⟨rfl, a, b, rfl, rfl⟩ <;>
        rcases hop with rfl | rfl | rfl | rfl <;> exact ⟨_, rfl, rfl⟩
  | arithmetic hop ht =>
      simp only [List.mem_cons, List.not_mem_nil, or_false] at hop
      rcases Value.numeric_cases ht hv hw with ⟨rfl, a, b, rfl, rfl⟩ | ⟨rfl, a, b, rfl, rfl⟩ <;>
        rcases hop with rfl | rfl | rfl | rfl <;> exact ⟨_, rfl, rfl⟩
  | mod =>
      obtain ⟨a, rfl⟩ := Value.kind_eq_int hv
      obtain ⟨b, rfl⟩ := Value.kind_eq_int hw
      exact ⟨_, rfl, rfl⟩

lemma UnaryOp.apply?_typed {op : UnaryOp} {t : Ty} (h : op.Typed t) {v : Value}
    (hv : v.kind = t.kind) : ∃ x, op.apply? v = some x ∧ x.kind = t.kind := by
  cases h with
  | not => exact ⟨_, rfl, rfl⟩
  | negInt =>
      obtain ⟨i, rfl⟩ := Value.kind_eq_int hv
      exact ⟨_, rfl, rfl⟩
  | negFloat =>
      obtain ⟨f, rfl⟩ := Value.kind_eq_float hv
      exact ⟨_, rfl, rfl⟩

/-! ## State fields

Names with dots follow properties of types.  Only the cells have properties, and a property of a
cell is a field of the layout, whose value has the type that the field was declared with.
-/

lemma Layout.mem_of_field? {l : Layout} {name : String} {d : Field} (h : l.field? name = some d) :
    d ∈ l.fields ∧ d.name = name :=
  ⟨List.mem_of_find?_eq_some h, by simpa using List.find?_some h⟩

/-- The properties of a cell are its state fields. -/
lemma Layout.prop?_cellType (l : Layout) (name : String) :
    l.cellType.prop? name = (l.field? name).map Field.type := by
  rw [Layout.cellType, Ty.prop?, Ty.props, Layout.field?]
  induction l.fields with
  | nil => rfl
  | cons f fs ih =>
      simp only [List.map_cons, List.lookup_cons, List.find?_cons]
      by_cases h : f.name = name
      · simp [h]
      · have hname : (name == f.name) = false := by simpa using Ne.symm h
        simp [h, hname, ih]

lemma Field.isScalar_type (f : Field) : f.type.isScalar = true := by
  rw [Field.type]
  split_ifs <;> rfl

lemma Field.kind_value (f : Field) (r : Record) : (f.value r).kind = f.type.kind := by
  simp only [Field.value, Field.type]
  split_ifs <;> rfl

/-- Fields have no properties of their own. -/
lemma Field.prop?_type (f : Field) (name : String) : f.type.prop? name = none := by
  rw [Field.type]
  split_ifs <;> rfl

/-- A dotted name that starts at a cell is the cell, or one of its fields. -/
lemma Layout.follow?_cellType {l : Layout} {names : List String} {t : Ty}
    (h : l.cellType.follow? names = some t) :
    (names = [] ∧ t = l.cellType) ∨
      ∃ name f, names = [name] ∧ l.field? name = some f ∧ t = f.type := by
  cases names with
  | nil =>
      simp only [Ty.follow?, Option.some.injEq] at h
      exact .inl ⟨rfl, h.symm⟩
  | cons name more =>
      right
      rw [Ty.follow?, Layout.prop?_cellType] at h
      cases hf : l.field? name with
      | none => simp [hf] at h
      | some f =>
          simp only [hf, Option.map_some] at h
          cases more with
          | nil =>
              simp only [Ty.follow?, Option.some.injEq] at h
              exact ⟨name, f, rfl, hf, h.symm⟩
          | cons next more =>
              simp [Ty.follow?, Field.prop?_type] at h

/-- What stands behind the cell is a field of it. -/
lemma Layout.exists_field_of_follow? {l : Layout} {name : String} {t : Ty}
    (h : l.cellType.follow? [name] = some t) : ∃ d ∈ l.fields, d.name = name ∧ t = d.type := by
  rcases follow?_cellType h with ⟨hnil, -⟩ | ⟨name', d, hname, hd, htype⟩
  · cases hnil
  · cases hname
    obtain ⟨hmem, hdname⟩ := mem_of_field? hd
    exact ⟨d, hmem, hdname, htype⟩

/-- A dotted name that starts at a value is that value. -/
lemma Ty.follow?_of_kind {t u : Ty} {v : Value} (hv : v.kind = t.kind) {names : List String}
    (h : t.follow? names = some u) : names = [] ∧ u = t := by
  cases names with
  | nil =>
      simp only [Ty.follow?, Option.some.injEq] at h
      exact ⟨rfl, h.symm⟩
  | cons name more =>
      cases t with
      | struct ps => exact absurd hv v.kind_ne_struct
      | invalid | bool | float | int | other => simp [Ty.follow?, Ty.prop?, Ty.props] at h

/-! ## Scopes

A slot is a position counted from the outermost link.  Inner scopes are longer lists with the same
end, so a link keeps its slot while scopes grow in front of it, and slots of different links are
different.
-/

/-- What is found in a scope is one of its links, with the links below it. -/
lemma Scope.suffix_of_find? {s : Scope} {name : String} {b : Binding} {slot : Slot}
    (h : s.find? name = some (b, slot)) :
    ∃ outer, b :: outer <:+ s ∧ slot = outer.length ∧ b.name = name := by
  induction s with
  | nil => simp [Scope.find?] at h
  | cons c outer ih =>
      rw [Scope.find?] at h
      split_ifs at h with hname
      · simp only [Option.some.injEq, Prod.mk.injEq] at h
        obtain ⟨rfl, rfl⟩ := h
        exact ⟨outer, List.suffix_rfl, rfl, hname⟩
      · obtain ⟨below, hsuffix, hslot, hb⟩ := ih h
        exact ⟨below, hsuffix.trans (List.suffix_cons c outer), hslot, hb⟩

/-- A slot names one link of a scope. -/
lemma Scope.suffix_unique {s : Scope} {b c : Binding} {below other : Scope}
    (hb : b :: below <:+ s) (hc : c :: other <:+ s) (h : below.length = other.length) :
    b = c := by
  have hlen : (b :: below).length ≤ (c :: other).length := by simp [h]
  have heq := (List.suffix_of_suffix_length_le hb hc hlen).eq_of_length (by simp [h])
  exact (List.cons.inj heq).1

/-- The links of a scope have smaller slots than the next one. -/
lemma Scope.slot_lt {s : Scope} {b : Binding} {below : Scope} (h : b :: below <:+ s) :
    below.length < s.length := by
  have := h.length_le
  simp only [List.length_cons] at this
  omega

/-! ## The invariant

`Frame.Fits` speaks of all links of a scope, also of those that are hidden by a link of the same
name. A hidden variable is visible again when the inner block has ended, so it has to keep its
value.
-/

/-- `f.Fits l s`: the frame holds what the names of the scope `s` promise.  Every variable was
stored with a value of its kind; the cell and the cell as it was have the type of the layout; any
other name has a count of its kind.  There are no other types than scalars and that of cells. -/
structure Frame.Fits (l : Layout) (f : Frame) (s : Scope) : Prop where
  stored : ∀ {b below}, b :: below <:+ s → b.assignable = true →
    ∃ v, f.locals.lookup below.length = some v ∧ v.kind = b.type.kind
  given : ∀ {b below}, b :: below <:+ s → b.assignable = false →
    ((b.name = cellName ∨ b.name = prevName) ∧ b.type = l.cellType) ∨
      (b.name ≠ cellName ∧ b.name ≠ prevName ∧
        ∃ v, f.counts.lookup b.name = some v ∧ v.kind = b.type.kind)
  scalar : ∀ {b below}, b :: below <:+ s → b.type = l.cellType ∨ b.type.isScalar = true

lemma Frame.lookup_store (f : Frame) (slot : Slot) (v : Value) :
    (f.store slot v).locals.lookup slot = some v := by
  simp [Frame.store]

lemma Frame.lookup_store_of_ne (f : Frame) {n slot : Slot} {v : Value} (h : n ≠ slot) :
    (f.store slot v).locals.lookup n = f.locals.lookup n := by
  have hne : (n == slot) = false := by simpa using h
  simp [Frame.store, List.lookup_cons, hne]

namespace Frame.Fits

variable {l : Layout} {f : Frame} {s : Scope}

/-- What fits an inner scope fits the scopes around it. -/
lemma mono {outer : Scope} (hf : f.Fits l s) (h : outer <:+ s) : f.Fits l outer where
  stored hb := hf.stored (hb.trans h)
  given hb := hf.given (hb.trans h)
  scalar hb := hf.scalar (hb.trans h)

/-- A declaration stores into the slot of the next link. -/
lemma declare (hf : f.Fits l s) (name : String) {t : Ty} (ht : t.isScalar = true) {v : Value}
    (hv : v.kind = t.kind) : (f.store s.length v).Fits l (s.declare name t) where
  stored := by
    intro b below hb hassign
    rcases List.suffix_cons_iff.mp hb with heq | hb
    · obtain ⟨rfl, rfl⟩ := List.cons.inj heq
      exact ⟨v, f.lookup_store _ v, hv⟩
    · rw [f.lookup_store_of_ne (Nat.ne_of_lt (Scope.slot_lt hb))]
      exact hf.stored hb hassign
  given := by
    intro b below hb hassign
    rcases List.suffix_cons_iff.mp hb with heq | hb
    · obtain ⟨rfl, rfl⟩ := List.cons.inj heq
      cases hassign
    · exact hf.given hb hassign
  scalar := by
    intro b below hb
    rcases List.suffix_cons_iff.mp hb with heq | hb
    · obtain ⟨rfl, rfl⟩ := List.cons.inj heq
      exact .inr ht
    · exact hf.scalar hb

/-- Storing into a variable of the scope. -/
lemma store (hf : f.Fits l s) {b : Binding} {below : Scope} (hb : b :: below <:+ s) {v : Value}
    (hv : v.kind = b.type.kind) : (f.store below.length v).Fits l s where
  stored := by
    intro c other hc hassign
    by_cases hslot : other.length = below.length
    · obtain rfl := Scope.suffix_unique hc hb hslot
      exact ⟨v, by rw [hslot, f.lookup_store], hv⟩
    · rw [f.lookup_store_of_ne hslot]
      exact hf.stored hc hassign
  given hc hassign := hf.given hc hassign
  scalar hc := hf.scalar hc

/-- No name of the scope depends on what is in the cell. -/
lemma write (hf : f.Fits l s) {pos : Position} {name : String} {v : Value} {f' : Frame}
    (h : f.write l pos name v = .ok f') : f'.Fits l s := by
  simp only [Frame.write] at h
  split at h
  · cases h
    exact ⟨hf.stored, hf.given, hf.scalar⟩
  · cases h

/-- A variable that is visible was stored before, with a value of the kind of its declaration. -/
lemma stored_of_find? (hf : f.Fits l s) {name : String} {b : Binding} {slot : Slot}
    (h : s.find? name = some (b, slot)) (hassign : b.assignable = true) :
    ∃ v, f.locals.lookup slot = some v ∧ v.kind = b.type.kind := by
  obtain ⟨below, hsuffix, rfl, -⟩ := Scope.suffix_of_find? h
  exact hf.stored hsuffix hassign

/-- A dotted name that is no whole cell has a value of its type. -/
lemma access (hf : f.Fits l s) {n : Note} {path : Path} (hn : n.scope = s)
    (hpath : path.HasType s n.type) (hscalar : n.type.kind ≠ .struct) :
    ∃ v, f.access l n path = .ok v ∧ v.kind = n.type.kind := by
  obtain ⟨b, slot, hfind, hfollow⟩ := hpath
  obtain ⟨below, hsuffix, rfl, hname⟩ := Scope.suffix_of_find? hfind
  rw [Frame.access]
  rw [hn, hfind]
  simp only
  cases hassign : b.assignable with
  | true =>
      obtain ⟨v, hv, hkind⟩ := hf.stored hsuffix hassign
      obtain ⟨hrest, htype⟩ := Ty.follow?_of_kind hkind hfollow
      exact ⟨v, by simp [hrest, hv], by rw [htype, hkind]⟩
  | false =>
      rcases hf.given hsuffix hassign with ⟨hcell, htype⟩ | ⟨hcell, hprev, v, hv, hkind⟩
      · rw [htype] at hfollow
        obtain ⟨hrest, htype⟩ | ⟨name, field, hrest, hfield, htype⟩ :=
          Layout.follow?_cellType hfollow
        · exact absurd (by rw [htype]; rfl) hscalar
        · rw [hname] at hcell
          rw [hrest, htype]
          simp only [Layout.read, hfield]
          split_ifs with h₁ h₂
          · exact ⟨_, rfl, field.kind_value _⟩
          · exact ⟨_, rfl, field.kind_value _⟩
          · exact absurd hcell (by simp [h₁, h₂])
      · obtain ⟨hrest, htype⟩ := Ty.follow?_of_kind hkind hfollow
        rw [hname] at hv
        exact ⟨v, by simp [hrest, hv], by rw [htype, hkind]⟩

end Frame.Fits

/-! ## Expressions

The induction is on the expression, with the scope fixed: all nodes of a well-typed expression have
the same scope.  Expressions that name a whole cell are left out, since they have no value.
Accepted programs may contain them, but not programs that were translated.
-/

/-- **A well-typed expression has a value of its type** in every frame that fits its scope. -/
theorem Expr.eval_wellTyped {l : Layout} {f : Frame} {s : Scope} (hf : f.Fits l s) :
    ∀ {e : Expr Note}, e.WellTyped s → e.Scalars → ∃ v, e.eval l f = .ok v ∧ v.kind = e.type.kind
  | .ternary n test yes no, ⟨_, htest, hyes, hno, _, hyestype, hnotype⟩, ⟨stest, syes, sno⟩ => by
      obtain ⟨t, ht, -⟩ := eval_wellTyped hf htest stest
      obtain ⟨a, ha, hakind⟩ := eval_wellTyped hf hyes syes
      obtain ⟨b, hb, hbkind⟩ := eval_wellTyped hf hno sno
      simp only [Expr.eval, ht, ok_bind]
      split_ifs
      · exact ⟨a, ha, by rw [hakind, hyestype]; rfl⟩
      · exact ⟨b, hb, by rw [hbkind, hnotype]; rfl⟩
  | .binary n op left right, ⟨_, hleft, hright, hsame, htyped⟩, ⟨sleft, sright⟩ => by
      obtain ⟨a, ha, hakind⟩ := eval_wellTyped hf hleft sleft
      obtain ⟨b, hb, hbkind⟩ := eval_wellTyped hf hright sright
      rw [hsame] at hbkind
      change op.Typed left.type (Expr.binary n op left right).type at htyped
      by_cases hlogic : op = .and ∨ op = .or
      · -- both have truth values for results, whether or not the right operand is looked at
        obtain ⟨-, hbool⟩ := htyped.logic hlogic
        simp only [Expr.eval, ha, hb, ok_bind, hbool]
        split_ifs
        · exact ⟨_, rfl, rfl⟩
        · exact ⟨_, rfl, rfl⟩
        · exact ⟨_, rfl, rfl⟩
        · simp_all
      · obtain ⟨hand, hor⟩ := not_or.mp hlogic
        obtain ⟨x, hx, hkind⟩ := BinaryOp.apply?_typed htyped hor hand hakind hbkind
        exact ⟨x, by simp [Expr.eval, ha, hb, hand, hor, hx, pure, Except.pure], hkind⟩
  | .unary n op operand, ⟨_, hoperand, htype, htyped⟩, soperand => by
      obtain ⟨v, hv, hkind⟩ := eval_wellTyped hf hoperand soperand
      obtain ⟨x, hx, hxkind⟩ := UnaryOp.apply?_typed htyped (hkind.trans (by rw [htype]))
      exact ⟨x, by simp [Expr.eval, hv, hx, pure, Except.pure], hxkind⟩
  | .cast n target operand, ⟨_, hoperand, _, htarget⟩, soperand => by
      obtain ⟨v, hv, -⟩ := eval_wellTyped hf hoperand soperand
      exact ⟨v.convert target, by rw [Expr.eval, hv]; rfl, Value.kind_convert htarget v⟩
  | .int n v text, ⟨_, htype⟩, _ => ⟨.int v, rfl, by rw [Expr.type, Expr.note, htype]; rfl⟩
  | .float n v text, ⟨_, htype⟩, _ => ⟨.float v, rfl, by rw [Expr.type, Expr.note, htype]; rfl⟩
  | .bool n v, ⟨_, htype⟩, _ => ⟨.bool v, rfl, by rw [Expr.type, Expr.note, htype]; rfl⟩
  | .access n path, ⟨hn, hpath⟩, hscalar => hf.access hn hpath hscalar

/-- The kind of a value that an expression was found to have. -/
lemma Expr.kind_eval {l : Layout} {f : Frame} {s : Scope} (hf : f.Fits l s) {e : Expr Note}
    (he : e.WellTyped s) (hs : e.Scalars) {v : Value} (hv : e.eval l f = .ok v) :
    v.kind = e.type.kind := by
  obtain ⟨w, hw, hkind⟩ := Expr.eval_wellTyped hf he hs
  rw [hw, Except.ok.injEq] at hv
  exact hv ▸ hkind

/-- A test is true or false. -/
lemma Expr.exists_bool_eval {l : Layout} {f : Frame} {s : Scope} (hf : f.Fits l s) {e : Expr Note}
    (he : e.WellTyped s) (hs : e.Scalars) (htype : e.type = .bool) {v : Value}
    (hv : e.eval l f = .ok v) : ∃ b, v = .bool b := by
  have hkind := Expr.kind_eval hf he hs hv
  rw [htype] at hkind
  exact Value.kind_eq_boolean hkind

/-- A dotted name that is no whole cell has a scalar type. -/
lemma Frame.Fits.isScalar_access {l : Layout} {f : Frame} {s : Scope} (hf : f.Fits l s)
    {path : Path} {t : Ty} (hpath : path.HasType s t) (hscalar : t.kind ≠ .struct) :
    t.isScalar = true := by
  obtain ⟨b, slot, hfind, hfollow⟩ := hpath
  obtain ⟨below, hsuffix, -, -⟩ := Scope.suffix_of_find? hfind
  rcases hf.scalar hsuffix with htype | htype
  · rw [htype] at hfollow
    rcases Layout.follow?_cellType hfollow with ⟨-, rfl⟩ | ⟨name, field, -, -, rfl⟩
    · exact absurd rfl hscalar
    · exact field.isScalar_type
  · cases hrest : path.rest with
    | nil =>
        rw [hrest, Ty.follow?, Option.some.injEq] at hfollow
        exact hfollow ▸ htype
    | cons name more =>
        rw [hrest, Ty.follow?] at hfollow
        cases hb : b.type <;> simp_all [Ty.isScalar, Ty.prop?, Ty.props]

/-- A well-typed expression that names no whole cell has a scalar type. -/
lemma Expr.isScalar_type {l : Layout} {f : Frame} {s : Scope} (hf : f.Fits l s) {e : Expr Note}
    (he : e.WellTyped s) (hs : e.Scalars) : e.type.isScalar = true := by
  induction e with
  | ternary n test yes no _ ihyes _ =>
      obtain ⟨-, -, hyes, -, -, htype, -⟩ := he
      have hscalar := ihyes hyes hs.2.1
      rwa [htype] at hscalar
  | binary n op left right ihleft _ =>
      obtain ⟨-, hleft, -, -, htyped⟩ := he
      exact htyped.isScalar (ihleft hleft hs.1)
  | unary n op operand ih =>
      obtain ⟨-, hoperand, htype, -⟩ := he
      have hscalar := ih hoperand hs
      rwa [htype] at hscalar
  | cast n target operand _ =>
      obtain ⟨-, -, -, htarget⟩ := he
      exact TypeName.isScalar_of_type? htarget
  | int n v text => rw [Expr.type, Expr.note, he.2]; rfl
  | float n v text => rw [Expr.type, Expr.note, he.2]; rfl
  | bool n v => rw [Expr.type, Expr.note, he.2]; rfl
  | access n path => exact hf.isScalar_access he.2 hs

/-! ## Statements

The induction is on the statement, and the frame changes along with the scope.  A loop does not
occur; every statement of the language ends.
-/

/-- The dotted names that may be assigned to: a variable, or a field of the cell. -/
lemma Path.Assignable.cases {s : Scope} {path : Path} {t : Ty} (h : path.Assignable s)
    (ht : path.HasType s t) {l : Layout} {f : Frame} (hf : f.Fits l s) :
    (∃ b below, path.rest = [] ∧ s.find? path.root = some (b, below.length) ∧
        b :: below <:+ s ∧ b.assignable = true ∧ t = b.type) ∨
      ∃ b slot name field, path.root = cellName ∧ path.rest = [name] ∧
        s.find? path.root = some (b, slot) ∧ b.assignable = false ∧
        l.field? name = some field ∧ t = field.type := by
  obtain ⟨b, slot, hfind, hfollow⟩ := ht
  obtain ⟨below, hsuffix, rfl, hname⟩ := Scope.suffix_of_find? hfind
  rw [Path.Assignable] at h
  split at h
  · rename_i hrest
    obtain ⟨b', slot', hfind', hassign⟩ := h
    rw [hfind] at hfind'
    obtain ⟨rfl, rfl⟩ := Prod.mk.inj (Option.some.inj hfind')
    rw [hrest, Ty.follow?, Option.some.injEq] at hfollow
    exact .inl ⟨b, below, hrest, hfind, hsuffix, hassign, hfollow.symm⟩
  · rename_i name hrest
    have hassign := h.2 b below.length hfind
    rcases hf.given hsuffix hassign with ⟨-, htype⟩ | ⟨hcell, -⟩
    · rw [htype] at hfollow
      rcases Layout.follow?_cellType hfollow with ⟨hrest', -⟩ | ⟨name', field, hrest', hfield, ht⟩
      · simp [hrest] at hrest'
      · rw [hrest] at hrest'
        obtain rfl := (List.cons.inj hrest').1
        exact .inr ⟨b, below.length, name, field, h.1, hrest, hfind, hassign, hfield, ht⟩
    · exact absurd (hname.trans h.1) hcell
  · exact h.elim

/-- A target holds a value, never a whole cell. -/
lemma Path.Assignable.scalar {s : Scope} {path : Path} {t : Ty} (h : path.Assignable s)
    (ht : path.HasType s t) {l : Layout} {f : Frame} (hf : f.Fits l s) : t.kind ≠ .struct := by
  obtain ⟨b, below, -, -, hsuffix, hassign, rfl⟩ | ⟨b, slot, name, field, -, -, -, -, -, rfl⟩ :=
    h.cases ht hf
  · obtain ⟨v, -, hkind⟩ := hf.stored hsuffix hassign
    exact hkind ▸ v.kind_ne_struct
  · exact field.kind_value {} ▸ (field.value {}).kind_ne_struct

namespace Frame.Fits

variable {l : Layout} {f : Frame} {s : Scope}

/-- A value of the right kind can be stored where an assignment says. -/
lemma assign (hf : f.Fits l s) {n : Note} {target : Path} {t : Ty} {v : Value} (hn : n.scope = s)
    (htarget : target.Assignable s) (htype : target.HasType s t) (hv : v.kind = t.kind) :
    ∃ f', f.assign l n target v = .ok f' ∧ f'.Fits l s := by
  obtain ⟨b, below, hrest, hfind, hsuffix, hassign, rfl⟩ |
    ⟨b, slot, name, field, hroot, hrest, hfind, -, hfield, rfl⟩ := htarget.cases htype hf
  · refine ⟨f.store below.length v, ?_, hf.store hsuffix hv⟩
    simp [Frame.assign, hrest, hn, hfind, hassign]
  · have hwrite : f.write l n.pos name v =
        .ok { f with cell := field.set f.cell v.toInt.toUInt32 } := by
      simp [Frame.write, hfield]
    refine ⟨_, ?_, hf.write hwrite⟩
    simp only [Frame.assign, hrest, hroot, if_true, hwrite]

/-- What an assignment stores has the type of its target. -/
lemma assigned (hf : f.Fits l s) {n m : Note} {target : Path} {op : AssignOp} {v : Value}
    (hm : m.scope = s) (htype : target.HasType s m.type) (htarget : target.Assignable s)
    (hop : op.Spelled) {t : Ty} (htyped : op.Typed m.type t) (hv : v.kind = t.kind) :
    ∃ w, op.eval l f n m target v = .ok w ∧ w.kind = m.type.kind := by
  cases op with
  | set =>
      simp only [AssignOp.Typed, AssignOp.binaryOp?] at htyped
      exact ⟨v, rfl, htyped ▸ hv⟩
  | update b =>
      obtain ⟨rfl, hb⟩ := htyped
      obtain ⟨old, hold, holdkind⟩ := hf.access hm htype (htarget.scalar htype hf)
      obtain ⟨hor, hand⟩ := AssignOp.ne_logic_of_arithmetic hop
      obtain ⟨w, hw, hwkind⟩ := BinaryOp.apply?_typed hb hor hand holdkind hv
      refine ⟨w, ?_, hwkind⟩
      simp [AssignOp.eval, AssignOp.binaryOp?, hold, hw, pure, Except.pure]
  | unknown symbol => exact hop.elim

/-- A declared variable starts with a value of its type. -/
lemma init (hf : f.Fits l s) {type : TypeName} {t : Ty} (ht : type.type? = some t)
    {init : Option (Expr Note)} (hinit : ∀ e, init = some e → e.WellTyped s ∧ e.type = t)
    (hscalars : ∀ e, init = some e → e.Scalars) :
    ∃ v, evalInit l f t init = .ok v ∧ v.kind = t.kind := by
  cases init with
  | none => exact ⟨_, rfl, Value.kind_zeroOf ht⟩
  | some e =>
      obtain ⟨hwell, htype⟩ := hinit e rfl
      obtain ⟨v, hv, hkind⟩ := Expr.eval_wellTyped hf hwell (hscalars e rfl)
      exact ⟨v, hv, htype ▸ hkind⟩

end Frame.Fits

mutual

/-- **A well-typed statement runs**, and the frame behind it fits the scope behind it. -/
theorem Stmt.exec_wellTyped {l : Layout} {s : Scope} {start : Nat} :
    ∀ {stmt : Stmt Note} {f : Frame}, stmt.WellTyped s start → stmt.Scalars → stmt.Spelled →
      f.Fits l s → ∃ f', Stmt.exec l stmt f = .ok f' ∧ f'.Fits l (stmt.after s)
  | .block n body, f, ⟨_, hbody⟩, sbody, pbody, hf => by
      obtain ⟨f', hf', hfits⟩ := Stmt.execAll_wellTyped hbody sbody pbody hf
      exact ⟨f', by rw [Stmt.exec, hf'], hfits.mono (Stmt.suffix_afterAll s body)⟩
  | .declare n type name init, f, ⟨hn, htype, _, _, hinit⟩, sinit, _, hf => by
      obtain ⟨v, hv, hkind⟩ := hf.init htype hinit sinit
      refine ⟨f.store s.length v, ?_, hf.declare name (TypeName.isScalar_of_type? htype) hkind⟩
      rw [Stmt.exec, hv, ok_bind, hn]
      rfl
  | .assign n m target op value, f, ⟨hn, hm, htype, htarget, hvalue, htyped⟩, svalue,
      ⟨pop, _⟩, hf => by
      obtain ⟨v, hv, hvkind⟩ := Expr.eval_wellTyped hf hvalue svalue
      obtain ⟨w, hw, hwkind⟩ := hf.assigned (n := n) hm htype htarget pop htyped hvkind
      obtain ⟨f', hf', hfits⟩ := hf.assign hn htarget htype hwkind
      refine ⟨f', ?_, hfits⟩
      rw [Stmt.exec, hv, ok_bind, hw, ok_bind, hf']
  | .when n test body, f, ⟨_, htest, _, hbody⟩, ⟨stest, sbody⟩, ⟨_, pbody⟩, hf => by
      obtain ⟨t, ht, -⟩ := Expr.eval_wellTyped hf htest stest
      obtain ⟨f', hf', hfits⟩ := Stmt.exec_wellTyped hbody sbody pbody hf
      rw [Stmt.exec, ht, ok_bind]
      split_ifs
      · exact ⟨f', hf', hfits.mono (body.suffix_after s)⟩
      · exact ⟨f, rfl, hf⟩
  | .branch n test yes no, f, ⟨_, htest, _, hyes, hno⟩, ⟨stest, syes, sno⟩, ⟨_, pyes, pno⟩,
      hf => by
      obtain ⟨t, ht, -⟩ := Expr.eval_wellTyped hf htest stest
      obtain ⟨g, hg, hgfits⟩ := Stmt.exec_wellTyped hyes syes pyes hf
      obtain ⟨h, hh, hhfits⟩ := Stmt.exec_wellTyped hno sno pno hf
      rw [Stmt.exec, ht, ok_bind]
      split_ifs
      · exact ⟨g, hg, hgfits.mono (yes.suffix_after s)⟩
      · exact ⟨h, hh, hhfits.mono (no.suffix_after s)⟩

/-- Well-typed statements run in turn. -/
theorem Stmt.execAll_wellTyped {l : Layout} {s : Scope} {start : Nat} :
    ∀ {stmts : List (Stmt Note)} {f : Frame}, Stmt.AllWellTyped s start stmts →
      Stmt.AllScalars stmts → Stmt.AllSpelled stmts → f.Fits l s →
      ∃ f', Stmt.execAll l stmts f = .ok f' ∧ f'.Fits l (Stmt.afterAll s stmts)
  | [], f, _, _, _, hf => ⟨f, rfl, hf⟩
  | stmt :: stmts, f, ⟨hstmt, hstmts⟩, ⟨sstmt, sstmts⟩, ⟨pstmt, pstmts⟩, hf => by
      obtain ⟨g, hg, hgfits⟩ := Stmt.exec_wellTyped hstmt sstmt pstmt hf
      obtain ⟨h, hh, hhfits⟩ := Stmt.execAll_wellTyped hstmts sstmts pstmts hgfits
      exact ⟨h, by rw [Stmt.execAll, hg, ok_bind, hh], hhfits⟩

end

/-! ## What a run looks at

The theorems above are about results.  A rule could also go wrong on the way and still have a
result, so the expressions that a run comes to are listed, by a recursion that follows the run, and
each of them is shown to be met in a frame that fits.
-/

/-- What a computation makes of its result, or nothing if it has none. -/
def onSuccess {β γ : Type} (x : Eval β) (more : β → List γ) : List γ :=
  match x with
  | .ok v => more v
  | .error _ => []

mutual

/-- The expressions that a run of a statement looks at, each with the frame in which it does so.  An
assignment that combines looks at its target too. -/
def Stmt.evaluations (l : Layout) : Stmt Note → Frame → List (Expr Note × Frame)
  | .block _ body, f => Stmt.evaluationsAll l body f
  | .declare _ _ _ init, f => init.toList.map fun e => (e, f)
  | .assign _ m target op value, f =>
    (value, f) :: (op.binaryOp?.toList.map fun _ => (.access m target, f))
  | .when _ test body, f =>
    (test, f) :: onSuccess (test.eval l f) fun t =>
      if t.isTrue then Stmt.evaluations l body f else []
  | .branch _ test yes no, f =>
    (test, f) :: onSuccess (test.eval l f) fun t =>
      if t.isTrue then Stmt.evaluations l yes f else Stmt.evaluations l no f

/-- The expressions that statements in turn look at. -/
def Stmt.evaluationsAll (l : Layout) : List (Stmt Note) → Frame → List (Expr Note × Frame)
  | [], _ => []
  | s :: ss, f =>
    Stmt.evaluations l s f ++ onSuccess (Stmt.exec l s f) fun g => Stmt.evaluationsAll l ss g

end

/-- `Expr.Meets l e f`: the expression is well-typed in a scope that the frame fits. -/
def Expr.Meets (l : Layout) (e : Expr Note) (f : Frame) : Prop :=
  ∃ s, e.WellTyped s ∧ e.Scalars ∧ f.Fits l s

/-- A test is looked at, and then what it decides for. -/
lemma Expr.meets_of_test {l : Layout} {s : Scope} {f : Frame} {test : Expr Note}
    (hf : f.Fits l s) (htest : test.WellTyped s) (stest : test.Scalars)
    {yes no : List (Expr Note × Frame)} (hyes : ∀ x ∈ yes, Expr.Meets l x.1 x.2)
    (hno : ∀ x ∈ no, Expr.Meets l x.1 x.2) :
    ∀ x ∈ (test, f) :: onSuccess (test.eval l f) fun t => if t.isTrue then yes else no,
      Expr.Meets l x.1 x.2 := by
  obtain ⟨t, ht, -⟩ := Expr.eval_wellTyped hf htest stest
  refine List.forall_mem_cons.mpr ⟨⟨s, htest, stest, hf⟩, ?_⟩
  simp only [ht, onSuccess]
  split_ifs
  · exact hyes
  · exact hno

mutual

/-- A run of a well-typed statement looks at expressions only in frames that fit their scopes. -/
theorem Stmt.meets_of_mem_evaluations {l : Layout} {s : Scope} {start : Nat} :
    ∀ {stmt : Stmt Note} {f : Frame}, stmt.WellTyped s start → stmt.Scalars → stmt.Spelled →
      f.Fits l s → ∀ x ∈ Stmt.evaluations l stmt f, Expr.Meets l x.1 x.2
  | .block n body, f, ⟨_, hbody⟩, sbody, pbody, hf => by
      rw [Stmt.evaluations]
      exact Stmt.meets_of_mem_evaluationsAll hbody sbody pbody hf
  | .declare n type name none, f, _, _, _, _ => by simp [Stmt.evaluations]
  | .declare n type name (some e), f, ⟨_, _, _, _, hinit⟩, sinit, _, hf => by
      simp only [Stmt.evaluations, Option.toList_some, List.map_cons, List.map_nil,
        List.mem_singleton, forall_eq]
      exact ⟨s, (hinit e rfl).1, sinit e rfl, hf⟩
  | .assign n m target op value, f, ⟨_, hm, htype, htarget, hvalue, _⟩, svalue, _, hf => by
      intro x hx
      rw [Stmt.evaluations] at hx
      rcases List.mem_cons.mp hx with rfl | hx
      · exact ⟨s, hvalue, svalue, hf⟩
      · obtain ⟨b, -, rfl⟩ := List.mem_map.mp hx
        exact ⟨s, ⟨hm, htype⟩, htarget.scalar htype hf, hf⟩
  | .when n test body, f, ⟨_, htest, _, hbody⟩, ⟨stest, sbody⟩, ⟨_, pbody⟩, hf => by
      have hbody := Stmt.meets_of_mem_evaluations hbody sbody pbody hf
      rw [Stmt.evaluations]
      exact Expr.meets_of_test hf htest stest hbody (by simp)
  | .branch n test yes no, f, ⟨_, htest, _, hyes, hno⟩, ⟨stest, syes, sno⟩, ⟨_, pyes, pno⟩,
      hf => by
      have hyes := Stmt.meets_of_mem_evaluations hyes syes pyes hf
      have hno := Stmt.meets_of_mem_evaluations hno sno pno hf
      rw [Stmt.evaluations]
      exact Expr.meets_of_test hf htest stest hyes hno

/-- The same for statements in turn. -/
theorem Stmt.meets_of_mem_evaluationsAll {l : Layout} {s : Scope} {start : Nat} :
    ∀ {stmts : List (Stmt Note)} {f : Frame}, Stmt.AllWellTyped s start stmts →
      Stmt.AllScalars stmts → Stmt.AllSpelled stmts → f.Fits l s →
      ∀ x ∈ Stmt.evaluationsAll l stmts f, Expr.Meets l x.1 x.2
  | [], f, _, _, _, _ => by simp [Stmt.evaluationsAll]
  | stmt :: stmts, f, ⟨hstmt, hstmts⟩, ⟨sstmt, sstmts⟩, ⟨pstmt, pstmts⟩, hf => by
      intro x hx
      obtain ⟨g, hg, hgfits⟩ := Stmt.exec_wellTyped hstmt sstmt pstmt hf
      rw [Stmt.evaluationsAll, hg] at hx
      rcases List.mem_append.mp hx with hx | hx
      · exact Stmt.meets_of_mem_evaluations hstmt sstmt pstmt hf x hx
      · exact Stmt.meets_of_mem_evaluationsAll hstmts sstmts pstmts hgfits x hx

end

/-- `Expr.Safe l e f`: every part of the expression has a value of its type in the frame, and every
variable among the parts was stored before with the kind of its declaration. -/
structure Expr.Safe (l : Layout) (e : Expr Note) (f : Frame) : Prop where
  value : ∀ p ∈ e.parts, ∃ v, p.eval l f = .ok v ∧ v.kind = p.type.kind
  stored : ∀ n path, .access n path ∈ e.parts →
    ∀ b slot, n.scope.find? path.root = some (b, slot) → b.assignable = true →
      ∃ v, f.locals.lookup slot = some v ∧ v.kind = b.type.kind

/-- **Expressions are safe where their scope is met.** -/
theorem Expr.Meets.safe {l : Layout} {e : Expr Note} {f : Frame} (h : e.Meets l f) :
    e.Safe l f := by
  obtain ⟨s, hwell, hscalars, hf⟩ := h
  refine ⟨fun p hp => ?_, fun n path hmem b slot hfind hassign => ?_⟩
  · exact Expr.eval_wellTyped hf (hwell.parts p hp) (hscalars.parts p hp)
  · obtain ⟨hn, -⟩ := hwell.parts _ hmem
    rw [hn] at hfind
    exact hf.stored_of_find? hfind hassign

end Cellular
