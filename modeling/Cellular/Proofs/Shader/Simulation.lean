import Cellular.Proofs.Machine.Run
import Cellular.Proofs.Shader.Environment

/-!
# The emitted rule does what the rule does

The rule runs on frames, the code that is emitted for it on the variables of a shader.  Step by step
the variables stay those of the frame (`Frame.shaderVars`), so both leave the same cell.

* `Calls.Access` says that accessors read and write state fields; `emitted_access` says that those
  of the shader do.
* `Expr.eval_toTerm` evaluates the code of an expression.
* `Stmt.exec_toCode` runs the code of a statement, and `Compiled.rule_simulated` that of a rule.

The simulation is forward: from a step of the rule it gives the step of the code.  As rules always
run to their end, and a run of code has at most one result, this is all there is.  The relation
between both sides is an equation, for the variables of the shader are a function of the frame and
the scope.  It is kept by every statement, and after the last one the variable of the cell holds the
record of the frame. Behind the end of a block the frame still has the variables of the block, while
the shader has dropped them; as the scope has, too, the equation is not disturbed.
-/

namespace Cellular

open Shader

/-! ## Accessors

The code of a rule reaches the fields of the cell through functions.  It is proved correct for any
functions that get and set fields, of which the emitted ones are an example.
-/

/-- The accessors of all fields of a layout do what `Field.get` and `Field.set` do. -/
structure Shader.Calls.Access (calls : Calls) (l : Layout) : Prop where
  get : ∀ d ∈ l.fields, ∀ r : Record,
    calls.function (getterName d.name) [r.datum] = some (d.datum r)
  setFlag : ∀ d ∈ l.fields, d.kind = .flag → ∀ (r : Record) (b : Bool),
    calls.update (setterName d.name) r.datum [.bool b] = some (d.set r (if b then 1 else 0)).datum
  setNumber : ∀ d ∈ l.fields, d.kind ≠ .flag → ∀ (r : Record) (i : Int32),
    calls.update (setterName d.name) r.datum [.int i] = some (d.set r i.toUInt32).datum

/-- A getter is called by its name: it is no constructor of a type. -/
lemma Shader.Calls.value?_getter (calls : Calls) (field : String) (args : List Datum) :
    calls.value? (getterName field) args = calls.function (getterName field) args := by
  have hhead : (getterName field).toList.head? = some 'g' := head?_append rfl
  have hname : ¬ (getterName field = "int" ∨ getterName field = "float" ∨
      getterName field = "bool") := by
    rintro (h | h | h)
    · exact ne_of_head? hhead rfl (by decide) h
    · exact ne_of_head? hhead rfl (by decide) h
    · exact ne_of_head? hhead rfl (by decide) h
  simp only [Calls.value?]
  exact if_neg hname

/-- A setter stores a value of the type of its field. -/
lemma Shader.Calls.Access.set {calls : Calls} {l : Layout} (h : calls.Access l) {name : String}
    {d : Field} (hd : l.field? name = some d) (r : Record) {v : Value}
    (hv : v.kind = d.type.kind) :
    calls.update (setterName name) r.datum [v.datum] = some (d.set r v.toInt.toUInt32).datum := by
  obtain ⟨hmem, rfl⟩ := Layout.mem_of_field? hd
  by_cases hkind : d.kind = .flag
  · obtain ⟨b, rfl⟩ := Value.kind_eq_boolean (by simpa [Field.type, hkind, Ty.kind] using hv)
    rw [Value.datum, h.setFlag d hmem hkind r b]
    cases b <;> rfl
  · obtain ⟨i, rfl⟩ := Value.kind_eq_int (by simpa [Field.type, hkind, Ty.kind] using hv)
    exact h.setNumber d hmem hkind r i

namespace Shader

/-- A field is found by the name of its getter or of its setter. -/
lemma find?_field {l : Layout} (hl : (l.fields.map Field.name).Nodup) {d : Field}
    (hd : d ∈ l.fields) {accessor : String → String}
    (hinj : ∀ a b, accessor a = accessor b → a = b) :
    l.fields.find? (fun x => accessor x.name = accessor d.name) = some d := by
  have hsome : (l.fields.find? fun x => accessor x.name = accessor d.name).isSome :=
    List.find?_isSome.mpr ⟨d, hd, by simp⟩
  obtain ⟨x, hx⟩ := Option.isSome_iff_exists.mp hsome
  have hname : x.name = d.name := hinj _ _ (by simpa using List.find?_some hx)
  rw [hx, List.inj_on_of_nodup_map hl (List.mem_of_find?_eq_some hx) hd hname]

/-- The accessors that a shader defines for the fields of a layout. -/
def emitted (l : Layout) : Calls where
  function name args :=
    (l.fields.find? fun d => getterName d.name = name).bind fun d =>
      (getter d).value? Calls.none args
  update name old args :=
    (l.fields.find? fun d => setterName d.name = name).bind fun d =>
      (setter d).update? Calls.none (old :: args)

/-- **Emitted accessors give access to all fields.** -/
theorem emitted_access {specs : List FieldSpec} {l : Layout} (h : Layout.pack specs = .ok l) :
    (emitted l).Access l := by
  have hnodup := Layout.nodup_names_of_pack h
  have hget : ∀ a b, getterName a = getterName b → a = b := fun a b =>
    (String.append_right_inj _).mp
  have hset : ∀ a b, setterName a = setterName b → a = b := fun a b =>
    (String.append_right_inj _).mp
  refine ⟨fun d hd r => ?_, fun d hd hkind r b => ?_, fun d hd hkind r i => ?_⟩
  · simp only [emitted, find?_field hnodup hd hget, Option.bind_some]
    exact value?_getter Calls.none (Layout.placed_of_pack h hd) r
  · simp only [emitted, find?_field hnodup hd hset, Option.bind_some]
    exact update?_setter_flag Calls.none (Layout.placed_of_pack h hd) hkind r b
  · have hplaced := Layout.placed_of_pack h hd
    simp only [emitted, find?_field hnodup hd hset, Option.bind_some]
    exact update?_setter_number Calls.none hplaced (hplaced.kind.resolve_left hkind) r i

end Shader

/-! ## Operators

Operators of the rule are operators of the shader under the same name, so one case for each operator
and type of operands is enough.  Logic is treated apart, because it may leave out an operand.
-/

/-- Operators between operands of one type mean the same in both languages. -/
lemma BinaryOp.value?_datum {op : BinaryOp} {t u : Ty} (h : op.Typed t u) (hor : op ≠ .or)
    (hand : op ≠ .and) (ht : t.isScalar = true) {v w x : Value} (hv : v.kind = t.kind)
    (hw : w.kind = t.kind) (hx : op.apply? v w = some x) :
    (Op.rule op).value? v.datum w.datum = some x.datum := by
  cases h with
  | or => exact absurd rfl hor
  | and => exact absurd rfl hand
  | eq =>
      cases t with
      | int =>
          obtain ⟨a, rfl⟩ := Value.kind_eq_int hv
          obtain ⟨b, rfl⟩ := Value.kind_eq_int hw
          cases hx
          rfl
      | float =>
          obtain ⟨a, rfl⟩ := Value.kind_eq_float hv
          obtain ⟨b, rfl⟩ := Value.kind_eq_float hw
          cases hx
          rfl
      | bool =>
          obtain ⟨a, rfl⟩ := Value.kind_eq_boolean hv
          obtain ⟨b, rfl⟩ := Value.kind_eq_boolean hw
          cases hx
          rfl
      | invalid | struct | other => simp [Ty.isScalar] at ht
  | ne =>
      cases t with
      | int =>
          obtain ⟨a, rfl⟩ := Value.kind_eq_int hv
          obtain ⟨b, rfl⟩ := Value.kind_eq_int hw
          cases hx
          simp [Value.datum, Value.same, Op.value?, Op.onInts]
      | float =>
          obtain ⟨a, rfl⟩ := Value.kind_eq_float hv
          obtain ⟨b, rfl⟩ := Value.kind_eq_float hw
          cases hx
          rfl
      | bool =>
          obtain ⟨a, rfl⟩ := Value.kind_eq_boolean hv
          obtain ⟨b, rfl⟩ := Value.kind_eq_boolean hw
          cases hx
          simp [Value.datum, Value.same, Op.value?, Op.onBools]
      | invalid | struct | other => simp [Ty.isScalar] at ht
  | order hop ht =>
      simp only [List.mem_cons, List.not_mem_nil, or_false] at hop
      rcases Value.numeric_cases ht hv hw with ⟨rfl, a, b, rfl, rfl⟩ | ⟨rfl, a, b, rfl, rfl⟩ <;>
        rcases hop with rfl | rfl | rfl | rfl <;> cases hx <;> rfl
  | arithmetic hop ht =>
      simp only [List.mem_cons, List.not_mem_nil, or_false] at hop
      rcases Value.numeric_cases ht hv hw with ⟨rfl, a, b, rfl, rfl⟩ | ⟨rfl, a, b, rfl, rfl⟩ <;>
        rcases hop with rfl | rfl | rfl | rfl <;> cases hx <;> rfl
  | mod =>
      obtain ⟨a, rfl⟩ := Value.kind_eq_int hv
      obtain ⟨b, rfl⟩ := Value.kind_eq_int hw
      cases hx
      rfl

lemma UnaryOp.value?_datum {op : UnaryOp} {t : Ty} (h : op.Typed t) {v x : Value}
    (hv : v.kind = t.kind) (hx : op.apply? v = some x) :
    (Sign.rule op).value? v.datum = some x.datum := by
  cases h with
  | not =>
      obtain ⟨b, rfl⟩ := Value.kind_eq_boolean hv
      cases hx
      rfl
  | negInt =>
      obtain ⟨i, rfl⟩ := Value.kind_eq_int hv
      cases hx
      rfl
  | negFloat =>
      obtain ⟨f, rfl⟩ := Value.kind_eq_float hv
      cases hx
      rfl

/-- A conversion is a call of the constructor of its target. -/
lemma Shader.Calls.value?_convert (calls : Calls) {target : TypeName} {t u : Ty}
    (htarget : target.type? = some u) (ht : t.isScalar = true) {v : Value} (hv : v.kind = t.kind) :
    calls.value? target.text [v.datum] = some (v.convert target).datum := by
  cases target with
  | unknown name => cases htarget
  | bool | int | float =>
      cases t with
      | int =>
          obtain ⟨i, rfl⟩ := Value.kind_eq_int hv
          rfl
      | float =>
          obtain ⟨f, rfl⟩ := Value.kind_eq_float hv
          rfl
      | bool =>
          obtain ⟨b, rfl⟩ := Value.kind_eq_boolean hv
          rfl
      | invalid | struct | other => simp [Ty.isScalar] at ht

/-- Only `&&` and `||` can be decided by their left operand. -/
lemma Shader.Op.decided?_eq_none {op : BinaryOp} (hor : op ≠ .or) (hand : op ≠ .and) (v : Datum) :
    (Op.rule op).decided? v = none := by
  simp only [Op.decided?]
  split <;> simp_all

/-! ## Expressions

An expression is translated part by part, and its value is found in the same way.  That the value
exists is a hypothesis here, which well-typed rules meet.
-/

/-- An integer is written as a term of its value; the least one as a difference. -/
lemma Shader.eval_intTerm (calls : Calls) (vars : Vars) (i : Int32) :
    (intTerm i).eval calls vars = some (.int i) := by
  unfold intTerm
  split_ifs with hmin hneg
  · rw [hmin, eval_paren, Term.op, eval_binary_ints calls (.rule .sub) (a := -2147483647) (b := 1)]
    · rfl
    · rw [Term.eval]
      rfl
    · rw [Term.eval]
      rfl
  all_goals
    have hbound : i.toInt.natAbs < 2147483648 := by
      have hle := Int32.le_toInt i
      have hlt := Int32.toInt_lt i
      have hne : i.toInt ≠ -2147483648 := by
        intro h
        exact hmin (Int32.toInt_inj.mp h)
      omega
    simp only [Term.eval, if_pos hbound, Int32.ofInt_toInt]

lemma Layout.read_eq_ok {l : Layout} {pos : Position} {r : Record} {name : String} {v : Value}
    (h : l.read pos r name = .ok v) : ∃ d, l.field? name = some d ∧ v = d.value r := by
  rw [Layout.read] at h
  cases hd : l.field? name with
  | none =>
      rw [hd] at h
      cases h
  | some d =>
      rw [hd] at h
      cases h
      exact ⟨d, rfl, rfl⟩

/-- What the accessors and the names of a layout and its kernels have to be for a rule to mean the
same in both languages. -/
structure Setting (calls : Calls) (l : Layout) (ks : KernelSet) : Prop where
  access : calls.Access l
  names : (mainNames l ks).Nodup

section

variable {calls : Calls} {l : Layout} {ks : KernelSet} {f : Frame} {s : Scope}

/-- The code of a field of the cell. -/
lemma Setting.eval_getter (h : Setting calls l ks) {name : String} {d : Field}
    (hd : l.field? name = some d) :
    (Term.call (getterName name) [cellTerm]).eval calls (f.shaderVars l ks s)
      = some (d.value f.cell).datum := by
  obtain ⟨hmem, rfl⟩ := Layout.mem_of_field? hd
  have hcell : (f.shaderVars l ks s).lookup cellName = some f.cell.datum :=
    f.lookup_shaderVars_main (f.lookup_cellName h.names)
  simp only [Term.eval, Term.evals, cellTerm, hcell, Option.bind_eq_bind, Option.bind_some,
    calls.value?_getter]
  rw [d.datum_value]
  exact h.access.get d hmem f.cell

/-- **The code of a dotted name has its value**, by whichever variable or accessor it is read. -/
lemma Setting.eval_path (h : Setting calls l ks) (hf : f.Fits l s) {n : Note} {path : Path}
    {t : Term} {v : Value} (hn : n.scope = s) (hpath : path.HasType s n.type)
    (ht : path.toTerm ks n = .ok t) (hv : f.access l n path = .ok v) :
    t.eval calls (f.shaderVars l ks s) = some v.datum := by
  obtain ⟨b, slot, hfind, -⟩ := hpath
  have hstruct : n.type.kind ≠ .struct := Expr.scalars_of_toTerm (e := .access n path) ht
  rw [Path.toTerm] at ht
  unfold Frame.access at hv
  rw [if_neg hstruct, hn, hfind] at ht
  rw [hn, hfind] at hv
  cases hrest : path.rest with
  | nil =>
      simp only [hrest] at ht hv
      by_cases hassign : b.assignable = true
      · rw [if_pos hassign] at ht hv
        cases ht
        cases hv
        obtain ⟨v, hv, -⟩ := hf.stored_of_find? hfind hassign
        rw [Term.eval, f.lookup_shaderVars_user hfind hassign hv, hv]
        rfl
      · rw [if_neg hassign] at ht hv
        split_ifs at ht with hkernel
        cases ht
        obtain ⟨k, hk⟩ := Option.isSome_iff_exists.mp hkernel
        have hmem : k ∈ ks.kernels := List.mem_of_find?_eq_some hk
        have hname : k.name = path.root := by simpa using List.find?_some hk
        split at hv
        · rename_i w hcount
          cases hv
          rw [Term.eval, ← hname, f.lookup_shaderVars_main (f.lookup_countLocal h.names hmem),
            hname, hcount]
          rfl
        · cases hv
  | cons field more =>
      cases more with
      | cons _ _ =>
          simp only [hrest] at ht
          cases ht
      | nil =>
          simp only [hrest] at ht hv
          split_ifs at ht hv with hassign hcell hprev
          · cases ht
            obtain ⟨d, hd, rfl⟩ := Layout.read_eq_ok hv
            exact h.eval_getter hd
          · cases ht
            obtain ⟨d, hd, rfl⟩ := Layout.read_eq_ok hv
            rw [Term.eval, f.lookup_shaderVars_main (f.lookup_prevLocal h.names hd), d.datum_value]

/-- `&&` and `||` look at their right operand in the same cases. -/
lemma Shader.eval_logic {vars : Vars} {op : BinaryOp} (hop : op = .and ∨ op = .or)
    {left right : Term} {a b : Bool} (hleft : left.eval calls vars = some (.bool a))
    (hright : right.eval calls vars = some (.bool b)) :
    (Term.op op left right).eval calls vars
      = some (.bool (if op = .and then a && b else a || b)) := by
  rcases hop with rfl | rfl <;> cases a <;>
    simp [Term.op, Term.eval, hleft, hright, Op.decided?, Op.value?, Op.onBools]

/-- The value of `&&` and `||`, whether or not the right operand is looked at. -/
lemma Expr.eval_logic {n : Note} {op : BinaryOp} (hop : op = .and ∨ op = .or)
    {left right : Expr Note} {a b : Bool} (hleft : left.eval l f = .ok (.bool a))
    (hright : right.eval l f = .ok (.bool b)) :
    (Expr.binary n op left right).eval l f
      = .ok (.bool (if op = .and then a && b else a || b)) := by
  rcases hop with rfl | rfl <;> cases a <;>
    simp [Expr.eval, hleft, hright, Value.isTrue, pure, Except.pure]

/-- **The code of an expression has its value.** -/
theorem Expr.eval_toTerm (h : Setting calls l ks) (hf : f.Fits l s) :
    ∀ {e : Expr Note} {t : Term} {v : Value}, e.WellTyped s → e.Spelled → e.toTerm ks = .ok t →
      e.eval l f = .ok v → t.eval calls (f.shaderVars l ks s) = some v.datum
  | .ternary n test yes no, t, v, ⟨_, wtest, wyes, wno, htype, _, _⟩, ⟨ptest, pyes, pno⟩, ht,
      hv => by
      simp only [Expr.toTerm, bind_eq_ok, pure_eq_ok] at ht
      obtain ⟨test', htest, yes', hyes, no', hno, rfl⟩ := ht
      simp only [Expr.eval, bind_eq_ok] at hv
      obtain ⟨c, hc, hv⟩ := hv
      obtain ⟨b, rfl⟩ := Expr.exists_bool_eval hf wtest (Expr.scalars_of_toTerm htest) htype hc
      have htest' := eval_toTerm h hf wtest ptest htest hc
      cases b with
      | true =>
          have hyes' := eval_toTerm h hf wyes pyes hyes hv
          simp [Term.eval, htest', Value.datum, hyes']
      | false =>
          have hno' := eval_toTerm h hf wno pno hno hv
          simp [Term.eval, htest', Value.datum, hno']
  | .binary n op left right, t, v, ⟨_, wleft, wright, hsame, htyped⟩, ⟨pleft, pright⟩, ht, hv => by
      simp only [Expr.toTerm, bind_eq_ok, pure_eq_ok] at ht
      obtain ⟨left', hleft, right', hright, rfl⟩ := ht
      have sleft := Expr.scalars_of_toTerm hleft
      obtain ⟨a, ha, hakind⟩ := Expr.eval_wellTyped hf wleft sleft
      obtain ⟨b, hb, hbkind⟩ := Expr.eval_wellTyped hf wright (Expr.scalars_of_toTerm hright)
      rw [hsame] at hbkind
      have hleft' := eval_toTerm h hf wleft pleft hleft ha
      have hright' := eval_toTerm h hf wright pright hright hb
      rw [eval_paren]
      by_cases hlogic : op = .and ∨ op = .or
      · obtain ⟨hbool, -⟩ := htyped.logic hlogic
        rw [hbool] at hakind hbkind
        obtain ⟨x, rfl⟩ := Value.kind_eq_boolean hakind
        obtain ⟨y, rfl⟩ := Value.kind_eq_boolean hbkind
        rw [Expr.eval_logic hlogic ha hb] at hv
        cases hv
        exact Shader.eval_logic hlogic hleft' hright'
      · obtain ⟨hand, hor⟩ := not_or.mp hlogic
        obtain ⟨x, hx, -⟩ := BinaryOp.apply?_typed htyped hor hand hakind hbkind
        have hvalue := BinaryOp.value?_datum htyped hor hand (Expr.isScalar_type hf wleft sleft)
          hakind hbkind hx
        simp only [Expr.eval, ha, hb, ok_bind, hand, hor, hx, pure_eq_ok, decide_false,
          Bool.false_and, Bool.false_or, Bool.false_eq_true, if_false] at hv
        rw [Term.op, Term.eval, hleft', hright']
        simp [Op.decided?_eq_none hor hand, hvalue, hv]
  | .unary n op operand, t, v, ⟨_, woperand, htype, htyped⟩, poperand, ht, hv => by
      simp only [Expr.toTerm, bind_eq_ok, pure_eq_ok] at ht
      obtain ⟨operand', hoperand, rfl⟩ := ht
      obtain ⟨a, ha, hakind⟩ := Expr.eval_wellTyped hf woperand (Expr.scalars_of_toTerm hoperand)
      rw [htype] at hakind
      obtain ⟨x, hx, -⟩ := UnaryOp.apply?_typed htyped hakind
      simp only [Expr.eval, ha, ok_bind, hx, pure_eq_ok] at hv
      have hoperand' := eval_toTerm h hf woperand poperand hoperand ha
      rw [eval_paren, Term.eval, hoperand', ← hv]
      exact UnaryOp.value?_datum htyped hakind hx
  | .cast n target operand, t, v, ⟨_, woperand, hscalar, htarget⟩, poperand, ht, hv => by
      simp only [Expr.toTerm, bind_eq_ok, pure_eq_ok] at ht
      obtain ⟨operand', hoperand, rfl⟩ := ht
      obtain ⟨a, ha, hakind⟩ := Expr.eval_wellTyped hf woperand (Expr.scalars_of_toTerm hoperand)
      simp only [Expr.eval, ha, ok_bind, pure_eq_ok] at hv
      have hoperand' := eval_toTerm h hf woperand poperand hoperand ha
      have hconvert := calls.value?_convert htarget hscalar hakind
      simp [Term.eval, Term.evals, hoperand', hconvert, hv]
  | .int n i text, t, v, _, _, ht, hv => by
      cases ht
      cases hv
      exact eval_intTerm calls _ i
  | .float n x text, t, v, _, ⟨d, hd, hx⟩, ht, hv => by
      cases ht
      cases hv
      simp [Term.eval, hd, hx, Value.datum]
  | .bool n b, t, v, _, _, ht, hv => by
      cases ht
      cases hv
      rw [Term.eval]
      rfl
  | .access n path, t, v, ⟨hn, hpath⟩, _, ht, hv => h.eval_path hf hn hpath ht hv

/-! ## Assignments

The two sides combine values at different points.  A rule reads the old value, combines and stores;
the shader has an assignment that combines for variables, and combines inside the call of a setter
for fields.
-/

/-- The term that a variable without an initial value starts with. -/
lemma Shader.eval_zeroTerm (vars : Vars) (t : Ty) :
    t.zeroTerm.eval calls vars = some (Value.zeroOf t).datum := by
  cases t with
  | bool =>
      change (Term.bool false).eval calls vars = _
      rw [Term.eval]
      rfl
  | float =>
      change (Term.float "0.0").eval calls vars = _
      rw [Term.eval]
      rfl
  | invalid | int | struct | other => exact eval_zero calls

/-- The code of an initial value. -/
lemma Setting.eval_init (h : Setting calls l ks) (hf : f.Fits l s) {t : Ty}
    {init : Option (Expr Note)} {term : Term} {v : Value}
    (hwell : ∀ e, init = some e → e.WellTyped s ∧ e.type = t)
    (hspelled : ∀ e, init = some e → e.Spelled) (hterm : initTerm ks t init = .ok term)
    (hv : evalInit l f t init = .ok v) : term.eval calls (f.shaderVars l ks s) = some v.datum := by
  cases init with
  | none =>
      cases hterm
      cases hv
      exact eval_zeroTerm _ t
  | some e => exact Expr.eval_toTerm h hf (hwell e rfl).1 (hspelled e rfl) hterm hv

/-- What an assignment stores, seen from both languages: the new value, or the old one combined with
it. -/
lemma Frame.Fits.assigned_cases (hf : f.Fits l s) {n m : Note} {target : Path} {op : AssignOp}
    {v w : Value} (hm : m.scope = s) (htype : target.HasType s m.type)
    (htarget : target.Assignable s) (hop : op.Spelled) {t : Ty} (htyped : op.Typed m.type t)
    (hv : v.kind = t.kind) (hw : op.eval l f n m target v = .ok w) :
    (op = .set ∧ w = v) ∨
      ∃ b old, op = .update b ∧ b ∈ AssignOp.arithmetic ∧ f.access l m target = .ok old ∧
        (Op.rule b).value? old.datum v.datum = some w.datum := by
  cases op with
  | set =>
      cases hw
      exact .inl ⟨rfl, rfl⟩
  | update b =>
      obtain ⟨rfl, hb⟩ := htyped
      have hscalar := htarget.scalar htype hf
      obtain ⟨old, hold, holdkind⟩ := hf.access hm htype hscalar
      obtain ⟨hor, hand⟩ := AssignOp.ne_logic_of_arithmetic hop
      obtain ⟨x, hx, -⟩ := BinaryOp.apply?_typed hb hor hand holdkind hv
      simp only [AssignOp.eval, AssignOp.binaryOp?, hold, ok_bind, hx, pure_eq_ok] at hw
      refine .inr ⟨b, old, rfl, hop, hold, ?_⟩
      rw [← hw]
      exact BinaryOp.value?_datum hb hor hand (hf.isScalar_access htype hscalar) holdkind hv hx
  | unknown symbol => exact hop.elim

/-- An assignment to a variable; the shader combines in the assignment itself. -/
lemma Shader.exec_assign_variable {name : String} {b : Binding} {slot : Slot} {old v w : Value}
    {op : AssignOp} {value : Term} (start : Nat) (hfind : s.find? name = some (b, slot))
    (hassign : b.assignable = true) (hold : f.locals.lookup slot = some old)
    (htypes : old.datum.type = w.datum.type)
    (hvalue : value.eval calls (f.shaderVars l ks s) = some v.datum)
    (hcombine : combine? op old.datum v.datum = some w.datum) :
    (Code.assign (.name (userVar name)) op value).exec calls start (f.shaderVars l ks s)
      = some (.next ((f.store slot w).shaderVars l ks s)) := by
  have hlookup : (f.shaderVars l ks s).lookup (userVar name) = some old.datum :=
    f.lookup_shaderVars_user hfind hassign hold
  have hassigned : Vars.assign (userVar name) w.datum (f.shaderVars l ks s)
      = some ((f.store slot w).shaderVars l ks s) :=
    f.assign_shaderVars_user hfind hassign hold htypes
  rw [Code.exec, hvalue]
  simp [store?, hlookup, hcombine, hassigned]

/-- A call of a setter on the cell. -/
lemma Setting.exec_setter (h : Setting calls l ks) {name : String} {d : Field} (start : Nat)
    (hd : l.field? name = some d) {stored : Term} {w : Value} (hw : w.kind = d.type.kind)
    (hstored : stored.eval calls (f.shaderVars l ks s) = some w.datum) :
    (Code.call (.call (setterName name) [cellTerm, stored])).exec calls start (f.shaderVars l ks s)
      = some (.next ({ f with cell := d.set f.cell w.toInt.toUInt32 }.shaderVars l ks s)) := by
  have hcell : (f.shaderVars l ks s).lookup cellName = some f.cell.datum :=
    f.lookup_shaderVars_main (f.lookup_cellName h.names)
  have hupdate := h.access.set hd f.cell hw
  have hassigned : Vars.assign cellName (d.set f.cell w.toInt.toUInt32).datum (f.shaderVars l ks s)
      = some ({ f with cell := d.set f.cell w.toInt.toUInt32 }.shaderVars l ks s) :=
    f.assign_shaderVars_cell _
  simp [cellTerm, Code.exec, Term.evals, hcell, hstored, hupdate, hassigned]

/-- A field of the cell is combined with a value before it is stored. -/
lemma Setting.eval_combined (h : Setting calls l ks) {name : String} {d : Field}
    (hd : l.field? name = some d) {b : BinaryOp} (hb : b ∈ AssignOp.arithmetic) {value : Term}
    {v w : Value} (hvalue : value.eval calls (f.shaderVars l ks s) = some v.datum)
    (hcombine : (Op.rule b).value? (d.value f.cell).datum v.datum = some w.datum) :
    (Term.paren (.op b (.call (getterName name) [cellTerm]) value)).eval calls
      (f.shaderVars l ks s) = some w.datum := by
  have hget := h.eval_getter (f := f) (s := s) hd
  obtain ⟨hor, hand⟩ := AssignOp.ne_logic_of_arithmetic hb
  rw [eval_paren, Term.op, Term.eval, hget, hvalue]
  simp [Op.decided?_eq_none hor hand, hcombine]

/-- The code of an assignment leaves the variables of the frame behind it. -/
lemma Setting.exec_assign (h : Setting calls l ks) (hf : f.Fits l s) {n m : Note} {target : Path}
    {op : AssignOp} {value : Term} {c : Code} {v w : Value} {f' : Frame} (start : Nat)
    (hn : n.scope = s) (hm : m.scope = s) (htype : target.HasType s m.type)
    (htarget : target.Assignable s) (hop : op.Spelled) {t : Ty} (htyped : op.Typed m.type t)
    (hv : v.kind = t.kind) (hvalue : value.eval calls (f.shaderVars l ks s) = some v.datum)
    (hw : op.eval l f n m target v = .ok w) (hf' : f.assign l n target w = .ok f')
    (hc : assignCode n.pos target op value = .ok c) :
    c.exec calls start (f.shaderVars l ks s) = some (.next (f'.shaderVars l ks s)) := by
  have hstored := hf.assigned_cases hm htype htarget hop htyped hv hw
  have hwkind : w.kind = m.type.kind := by
    obtain ⟨x, hx, hkind⟩ := hf.assigned hm htype htarget hop htyped hv
    rw [hw, Except.ok.injEq] at hx
    exact hx ▸ hkind
  obtain ⟨b, below, hrest, hfind, hsuffix, hassign, hbtype⟩ |
    ⟨b, slot, name, d, hroot, hrest, hfind, hassign, hd, hdtype⟩ := htarget.cases htype hf
  · obtain ⟨old, hold, holdkind⟩ := hf.stored hsuffix hassign
    simp only [Frame.assign, hrest, hn, hfind, hassign, if_true, Except.ok.injEq] at hf'
    simp only [assignCode, hrest, Except.ok.injEq] at hc
    have htypes : old.datum.type = w.datum.type := by
      rw [Value.type_datum holdkind, Value.type_datum hwkind, hbtype]
    rw [← hc, ← hf']
    apply exec_assign_variable start hfind hassign hold htypes hvalue
    rcases hstored with ⟨rfl, rfl⟩ | ⟨bop, old', rfl, hmem, hold', hcombine⟩
    · rfl
    · simp only [Frame.access, hm, hfind, hrest, hassign, if_true, hold, Option.getD_some,
        Except.ok.injEq] at hold'
      rw [combine?, if_pos hmem, hold', hcombine]
  · simp only [Frame.assign, hrest, hroot, if_true, Frame.write, hd, Except.ok.injEq] at hf'
    simp only [assignCode, hrest, hroot, if_true, Except.ok.injEq] at hc
    rw [← hc, ← hf']
    apply h.exec_setter start hd (hdtype ▸ hwkind)
    rcases hstored with ⟨rfl, rfl⟩ | ⟨bop, old, rfl, hmem, hold, hcombine⟩
    · exact hvalue
    · rw [hroot] at hfind
      simp only [Frame.access, hm, hroot, hfind, hrest, if_true, Layout.read, hd,
        Except.ok.injEq] at hold
      exact h.eval_combined hd hmem hvalue (hold ▸ hcombine)

/-! ## Statements

Blocks and branches both have braces in the shader, and a branch whose body is a block has them only
once.
-/

/-- Leaving the same braces twice is leaving them once. -/
lemma Shader.Vars.leave_leave (start : Nat) (vars : Vars) :
    (vars.leave start).leave start = vars.leave start := by
  have hdrop : (vars.leave start).length - start = 0 := by
    rw [Vars.leave, List.length_drop]
    omega
  rw [Vars.leave, hdrop, List.drop_zero]

/-- A branch has braces of its own, so a block inside it does not need its own. -/
lemma Shader.Code.execAll_branchBody (calls : Calls) (c : Code) (vars : Vars) :
    (Code.execAll calls vars.length c.branchBody vars).map (Flow.leave vars.length)
      = (c.exec calls vars.length vars).map (Flow.leave vars.length) := by
  have hone : Code.execAll calls vars.length [c] vars = c.exec calls vars.length vars := by
    rw [Code.execAll]
    cases c.exec calls vars.length vars with
    | none => rfl
    | some flow => cases flow <;> simp [Code.execAll]
  cases c with
  | block body =>
      have hleave : Flow.leave vars.length ∘ Flow.leave vars.length = Flow.leave vars.length := by
        funext flow
        cases flow <;> simp [Flow.leave, Vars.leave_leave]
      rw [Code.branchBody, Code.exec, Option.map_map, hleave]
  | declare | assign | call | when | branch | loop | skip | result | comment =>
      rw [← hone]
      rfl

/-- The code of a branch that ends in the scope `inner` leaves the variables of the scope around
it. -/
lemma Shader.Code.execAll_branch {c : Code} {f f' : Frame} {s inner : Scope} (hs : s <:+ inner)
    (h : c.exec calls (f.shaderVars l ks s).length (f.shaderVars l ks s)
      = some (.next (f'.shaderVars l ks inner))) :
    (Code.execAll calls (f.shaderVars l ks s).length c.branchBody (f.shaderVars l ks s)).map
      (Flow.leave (f.shaderVars l ks s).length) = some (.next (f'.shaderVars l ks s)) := by
  rw [Code.execAll_branchBody, h, Option.map_some, Flow.leave, Frame.leave_shaderVars f' f hs]

mutual

/-- **The code of a statement does what the statement does.**  The statement stands in a block that
sees `outer` around it; in the shader that block starts behind `start` variables. -/
theorem Stmt.exec_toCode (h : Setting calls l ks) {outer s : Scope} {start : Nat}
    (hopen : Frame.OpensAt l ks outer start) (hs : outer <:+ s) :
    ∀ {stmt : Stmt Note} {c : Code} {f f' : Frame}, stmt.WellTyped s outer.length →
      stmt.Spelled → f.Fits l s → stmt.toCode ks = .ok c → Stmt.exec l stmt f = .ok f' →
      c.exec calls start (f.shaderVars l ks s)
        = some (.next (f'.shaderVars l ks (stmt.after s)))
  | .block n body, c, f, f', ⟨_, wbody⟩, pbody, hf, hc, hexec => by
      simp only [Stmt.toCode, bind_eq_ok, pure_eq_ok] at hc
      obtain ⟨codes, hcodes, rfl⟩ := hc
      rw [Stmt.exec] at hexec
      have hbody := Stmt.execAll_toCodes h (Frame.opensAt_block f s) List.suffix_rfl wbody pbody hf
        hcodes hexec
      rw [Code.exec, hbody, Option.map_some, Flow.leave,
        Frame.leave_shaderVars f' f (Stmt.suffix_afterAll s body)]
      rfl
  | .declare n type name init, c, f, f', ⟨hn, htype, _, hnew, hinit⟩, pinit, hf, hc, hexec => by
      have sinit : ∀ e, init = some e → e.Scalars := Stmt.scalars_of_toCode hc
      simp only [Stmt.toCode, bind_eq_ok, pure_eq_ok] at hc
      obtain ⟨term, hterm, rfl⟩ := hc
      simp only [Stmt.exec, bind_eq_ok, pure_eq_ok] at hexec
      obtain ⟨v, hv, rfl⟩ := hexec
      have hkind : v.kind = n.type.kind := by
        obtain ⟨w, hw, hkind⟩ := hf.init htype hinit sinit
        rw [hv, Except.ok.injEq] at hw
        exact hw ▸ hkind
      have hvalue := h.eval_init hf hinit pinit hterm hv
      have hdeclare := f.declare_shaderVars hopen hs hnew hkind
      rw [Code.exec, hvalue]
      simp [hdeclare, hn, Stmt.after]
  | .assign n m target op value, c, f, f', ⟨hn, hm, htype, htarget, wvalue, htyped⟩,
      ⟨pop, pvalue⟩, hf, hc, hexec => by
      simp only [Stmt.toCode, bind_eq_ok] at hc
      obtain ⟨term, hterm, hc⟩ := hc
      simp only [Stmt.exec, bind_eq_ok] at hexec
      obtain ⟨v, hv, w, hw, hf'⟩ := hexec
      have hkind := Expr.kind_eval hf wvalue (Expr.scalars_of_toTerm hterm) hv
      have hvalue := Expr.eval_toTerm h hf wvalue pvalue hterm hv
      exact h.exec_assign hf start hn hm htype htarget pop htyped hkind hvalue hw hf' hc
  | .when n test body, c, f, f', ⟨_, wtest, htype, wbody⟩, ⟨ptest, pbody⟩, hf, hc, hexec => by
      simp only [Stmt.toCode, bind_eq_ok, pure_eq_ok] at hc
      obtain ⟨test', htest, body', hbody, rfl⟩ := hc
      simp only [Stmt.exec, bind_eq_ok] at hexec
      obtain ⟨t, ht, hexec⟩ := hexec
      obtain ⟨b, rfl⟩ := Expr.exists_bool_eval hf wtest (Expr.scalars_of_toTerm htest) htype ht
      have htest' := Expr.eval_toTerm h hf wtest ptest htest ht
      rw [Code.exec, htest']
      cases b with
      | true =>
          have hrun := Stmt.exec_toCode h (Frame.opensAt_block f s) List.suffix_rfl wbody pbody hf
            hbody hexec
          exact Code.execAll_branch (body.suffix_after s) hrun
      | false =>
          cases hexec
          rfl
  | .branch n test yes no, c, f, f', ⟨_, wtest, htype, wyes, wno⟩, ⟨ptest, pyes, pno⟩, hf, hc,
      hexec => by
      simp only [Stmt.toCode, bind_eq_ok, pure_eq_ok] at hc
      obtain ⟨test', htest, yes', hyes, no', hno, rfl⟩ := hc
      simp only [Stmt.exec, bind_eq_ok] at hexec
      obtain ⟨t, ht, hexec⟩ := hexec
      obtain ⟨b, rfl⟩ := Expr.exists_bool_eval hf wtest (Expr.scalars_of_toTerm htest) htype ht
      have htest' := Expr.eval_toTerm h hf wtest ptest htest ht
      rw [Code.exec, htest']
      cases b with
      | true =>
          have hrun := Stmt.exec_toCode h (Frame.opensAt_block f s) List.suffix_rfl wyes pyes hf
            hyes hexec
          exact Code.execAll_branch (yes.suffix_after s) hrun
      | false =>
          have hrun := Stmt.exec_toCode h (Frame.opensAt_block f s) List.suffix_rfl wno pno hf
            hno hexec
          exact Code.execAll_branch (no.suffix_after s) hrun

/-- The code of statements in turn does what they do. -/
theorem Stmt.execAll_toCodes (h : Setting calls l ks) {outer s : Scope} {start : Nat}
    (hopen : Frame.OpensAt l ks outer start) (hs : outer <:+ s) :
    ∀ {stmts : List (Stmt Note)} {cs : List Code} {f f' : Frame},
      Stmt.AllWellTyped s outer.length stmts → Stmt.AllSpelled stmts → f.Fits l s →
      Stmt.toCodes ks stmts = .ok cs → Stmt.execAll l stmts f = .ok f' →
      Code.execAll calls start cs (f.shaderVars l ks s)
        = some (.next (f'.shaderVars l ks (Stmt.afterAll s stmts)))
  | [], cs, f, f', _, _, _, hcs, hexec => by
      cases hcs
      cases hexec
      rw [Code.execAll]
      rfl
  | stmt :: stmts, cs, f, f', ⟨wstmt, wstmts⟩, ⟨pstmt, pstmts⟩, hf, hcs, hexec => by
      simp only [Stmt.toCodes, bind_eq_ok, pure_eq_ok] at hcs
      obtain ⟨c, hc, cs', hcs', rfl⟩ := hcs
      simp only [Stmt.execAll, bind_eq_ok] at hexec
      obtain ⟨g, hg, hexec⟩ := hexec
      have hgfits : g.Fits l (stmt.after s) := by
        obtain ⟨g', hg', hfits⟩ :=
          Stmt.exec_wellTyped wstmt (Stmt.scalars_of_toCode hc) pstmt hf
        rw [hg, Except.ok.injEq] at hg'
        exact hg' ▸ hfits
      have hfirst := Stmt.exec_toCode h hopen hs wstmt pstmt hf hc hg
      rw [execAll_cons calls start cs' hfirst]
      exact Stmt.execAll_toCodes h hopen (hs.trans (stmt.suffix_after s)) wstmts pstmts hgfits hcs'
        hexec

end

end

/-! ## The rule -/

/-- The variable that a statement declares. -/
def Shader.Code.declared? : Code → Option String
  | .declare _ name _ => some name
  | _ => none

/-- What the entry point does before the rule: it declares the counts, the cell, and the fields of
the cell as it was. -/
def Shader.openingCode (l : Layout) (ks : KernelSet) : List Code :=
  .set (.name coordName) (.call "ivec2" [.member (.name "gl_FragCoord") "xy"])
    :: ks.kernels.map (fun k =>
        .declare k.result.toShader (countLocal k.name) (.call (countName k.name) []))
    ++ .declare .ivec4 cellName (.call cellAtName
        [.member (.name coordName) "x", .member (.name coordName) "y"])
    :: l.fields.map (fun d =>
        .declare (fieldType d) (prevLocal d.name) (.call (getterName d.name) [cellTerm]))

lemma Shader.declared_openingCode (l : Layout) (ks : KernelSet) :
    (openingCode l ks).filterMap Code.declared? = (mainNames l ks).reverse := by
  simp [openingCode, mainNames, Code.set, Code.declared?, List.filterMap_cons,
    List.filterMap_append, List.filterMap_map, Function.comp_def]

/-- In the entry point the rule stands behind a comment. -/
lemma Shader.mainFunction_body (l : Layout) (ks : KernelSet) (rule : List Code) :
    ∃ after, (mainFunction l ks rule).body
      = openingCode l ks ++ .comment "rule program" :: (rule ++ after) := by
  simp only [mainFunction, openingCode, List.cons_append, List.append_assoc]
  exact ⟨_, rfl⟩

/-- **The emitted rule computes what the rule computes.**  In the entry point of the shader of a
compiled rule, the code of the rule stands behind the comment `rule program`, where the variables of
the entry point are declared.  From variables that hold any cell, the fields of any cell as it was
and any counts of the right types, and with accessors that read and write the fields, it leaves in
`cell` the record that the rule leaves in its cell. -/
theorem Compiled.rule_simulated {config : Config} {c : Compiled} (h : config.compile = .ok c)
    {calls : Calls} (hcalls : calls.Access c.layout) {counts : List (String × Value)}
    (hcounts : c.kernels.Counted counts) (cell prev : Record) :
    ∃ main ∈ c.shader.functions, ∃ before rule after,
      main.name = "main" ∧ main.body = before ++ .comment "rule program" :: (rule ++ after) ∧
      before.filterMap Code.declared? = (mainNames c.layout c.kernels).reverse ∧
      Stmt.toCodes c.kernels c.program.body = .ok rule ∧
      ∃ f vars, Stmt.execAll c.layout c.program.body { cell, prev, counts } = .ok f ∧
        Code.execAll calls 0 rule (Frame.mainVars c.layout c.kernels { cell, prev, counts })
          = some (.next vars) ∧
        vars.lookup cellName = some f.cell.datum := by
  have hc := Config.wellFormed_of_compile h
  obtain ⟨specs, hpack⟩ := hc.packed
  obtain ⟨rule, hrule, hmain⟩ := hc.translated
  obtain ⟨after, hbody⟩ := mainFunction_body c.layout c.kernels rule
  have hsetting : Setting calls c.layout c.kernels :=
    ⟨hcalls, nodup_mainNames (Layout.nodup_names_of_pack hpack) hc.kernels.names_nodup⟩
  have hroot : ∀ b ∈ rootScope c.layout c.kernels, b.assignable = false :=
    fun b hb => (mem_rootScope hb).1
  have hfits := Frame.fits_rootScope hc.kernels hcounts cell prev
  obtain ⟨f, hf, -⟩ := Stmt.execAll_wellTyped hc.typed hc.scalars hc.spelled hfits
  have hrun := Stmt.execAll_toCodes hsetting (Frame.opensAt_root hroot) List.suffix_rfl hc.typed
    hc.spelled hfits hrule hf
  rw [Frame.shaderVars, Frame.userVars_eq_nil _ hroot, List.nil_append] at hrun
  exact ⟨_, hmain, _, rule, after, rfl, hbody, declared_openingCode c.layout c.kernels, hrule, f, _,
    hf, hrun, f.lookup_shaderVars_main (f.lookup_cellName hsetting.names)⟩

/-- Five neighbours, and the accessors that the shader defines itself. -/
theorem Compiled.rule_simulated_aging :
    ∃ c, Config.aging.compile = .ok c ∧ (emitted c.layout).Access c.layout ∧
      c.kernels.Counted [("n", .int 5)] ∧
      ∃ main ∈ c.shader.functions, ∃ before rule after,
        main.name = "main" ∧ main.body = before ++ .comment "rule program" :: (rule ++ after) ∧
        before.filterMap Code.declared? = (mainNames c.layout c.kernels).reverse ∧
        Stmt.toCodes c.kernels c.program.body = .ok rule ∧
        ∃ f vars, Stmt.execAll c.layout c.program.body
            { cell := ⟨1, 2, 0, 0⟩, prev := ⟨1, 2, 0, 0⟩, counts := [("n", .int 5)] } = .ok f ∧
          Code.execAll (emitted c.layout) 0 rule (Frame.mainVars c.layout c.kernels
            { cell := ⟨1, 2, 0, 0⟩, prev := ⟨1, 2, 0, 0⟩, counts := [("n", .int 5)] })
            = some (.next vars) ∧
          vars.lookup cellName = some f.cell.datum := by
  obtain ⟨c, hc, hkernels⟩ := Config.aging_compiles
  obtain ⟨specs, hpack⟩ := (Config.wellFormed_of_compile hc).packed
  have hcounted : c.kernels.Counted [("n", .int 5)] := by
    intro k hk
    have hmem := List.mem_map_of_mem (f := fun k : Kernel => (k.name, k.result)) hk
    rw [hkernels, List.mem_singleton] at hmem
    obtain ⟨hname, hresult⟩ := Prod.mk.inj hmem
    exact ⟨.int 5, by rw [hname]; rfl, by rw [hresult]; rfl⟩
  have haccess := emitted_access hpack
  exact ⟨c, hc, haccess, hcounted,
    Compiled.rule_simulated hc haccess hcounted ⟨1, 2, 0, 0⟩ ⟨1, 2, 0, 0⟩⟩

end Cellular
