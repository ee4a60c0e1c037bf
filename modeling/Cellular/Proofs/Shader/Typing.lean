import Cellular.Proofs.Shader.Names
import Cellular.Proofs.Shader.Static

/-!
# The types of generated expressions

A rule and its shader have the same types, and the code of an expression has the type of the
expression.  The names of a rule are read in different ways, so the proof asks of the place where the
code stands only that it has what each of these ways needs.

* `BinaryOp.Typed.type?`, `UnaryOp.Typed.type?` and `AssignOp.Typed.storedType?`: operators have the
  same types in both languages.
* `Context.Offers` says that a name stands for a declaration outside of all functions.
* `Resolves` relates the names that a rule sees to the variables and accessors that its code sees.
* `Expr.type?_toTerm`: the code of an expression has its type.

The types of the rule language that an expression can have in a shader are three, and each of them
has a type of the shader of the same name.  Whole cells have no code.  So the theorem is an
induction on the expression in which the types are carried along; parentheses stand around every
operator, and with them the rank of an operand is always the lowest.  `Resolves` is a record of what
the context has to offer.  A rule, and a value function, are two different contexts for which it is
proved once each.
-/

namespace Cellular

open Shader

/-! ## Operators

Each operator of the rule language has in the shader the type that it has in the rule.  The tables
of both languages are finite and are compared once.
-/

/-- The type of a value of the rule language in a shader. -/
def Ty.valueType (t : Ty) : ValueType := t.toShader.value

lemma Ty.numeric_cases {t : Ty} (h : t.isNumeric = true) : t = .int ∨ t = .float := by
  cases t <;> simp_all [Ty.isNumeric]

/-- Operators have the same types in both languages. -/
lemma BinaryOp.Typed.type? {op : BinaryOp} {t u : Ty} (h : op.Typed t u) :
    (Op.rule op).type? t.valueType t.valueType = some u.valueType := by
  cases h with
  | or | and | mod => rfl
  | eq | ne => cases t <;> rfl
  | order hop ht =>
      simp only [List.mem_cons, List.not_mem_nil, or_false] at hop
      rcases Ty.numeric_cases ht with rfl | rfl <;> rcases hop with rfl | rfl | rfl | rfl <;> rfl
  | arithmetic hop ht =>
      simp only [List.mem_cons, List.not_mem_nil, or_false] at hop
      rcases Ty.numeric_cases ht with rfl | rfl <;> rcases hop with rfl | rfl | rfl | rfl <;> rfl

lemma UnaryOp.Typed.type? {op : UnaryOp} {t : Ty} (h : op.Typed t) :
    (Sign.rule op).type? t.valueType = some t.valueType := by
  cases h <;> rfl

/-- An assignment stores a value of the type of its target. -/
lemma AssignOp.Typed.storedType? {op : AssignOp} {t u : Ty} (hop : op.Spelled) (h : op.Typed t u) :
    storedType? op t.valueType u.valueType = some t.valueType := by
  cases op with
  | set =>
      rw [show u = t from h]
      rfl
  | update b =>
      obtain ⟨rfl, hb⟩ := h
      rw [Shader.storedType?, if_pos (show b ∈ AssignOp.arithmetic from hop)]
      exact hb.type?
  | unknown s => exact hop.elim

/-! ## Terms

A dotted name is emitted in one of four ways, depending on what binds its first part.
-/

/-- A conversion constructs a value of its target. -/
lemma Shader.call?_convert (ctx : Context) {target : TypeName} {t u : Ty}
    (htarget : target.type? = some u) (ht : t.isScalar = true) (writable : List Bool) :
    ctx.call? target.text [t.valueType] writable = some u.valueType := by
  cases target with
  | unknown name => cases htarget
  | bool | int | float =>
      cases htarget
      cases t with
      | invalid | struct | other => simp [Ty.isScalar] at ht
      | bool | float | int => rfl

/-- The code of a dotted name whose first part is bound by `b`: a variable of the rule, a count, a
field of the cell, or a field of the cell as it was. -/
inductive Path.EmittedAs (ks : KernelSet) (b : Binding) : Path → Term → Prop where
  | var {root : String} (hb : b.assignable = true) :
      EmittedAs ks b ⟨root, []⟩ (.name (userVar root))
  | count {k : Kernel} (hb : b.assignable = false) (hk : k ∈ ks.kernels) :
      EmittedAs ks b ⟨k.name, []⟩ (.name (countLocal k.name))
  | field {name : String} (hb : b.assignable = false) :
      EmittedAs ks b ⟨cellName, [name]⟩ (.call (getterName name) [cellTerm])
  | before {name : String} (hb : b.assignable = false) :
      EmittedAs ks b ⟨prevName, [name]⟩ (.name (prevLocal name))

lemma Path.emittedAs_of_toTerm {ks : KernelSet} {n : Note} {path : Path} {t : Term}
    (h : path.toTerm ks n = .ok t) :
    ∃ b slot, n.scope.find? path.root = some (b, slot) ∧ path.EmittedAs ks b t := by
  obtain ⟨root, rest⟩ := path
  have hstruct : n.type.kind ≠ .struct := Expr.scalars_of_toTerm (e := .access n ⟨root, rest⟩) h
  rw [Path.toTerm, if_neg hstruct] at h
  cases hfind : n.scope.find? root with
  | none =>
      rw [hfind] at h
      cases h
  | some found =>
      obtain ⟨b, slot⟩ := found
      rw [hfind] at h
      refine ⟨b, slot, rfl, ?_⟩
      cases hb : b.assignable with
      | true =>
          simp only [hb, if_true] at h
          split at h
          · cases h
            exact .var hb
          · cases h
          · cases h
      | false =>
          simp only [hb, Bool.false_eq_true, if_false] at h
          split at h
          · split_ifs at h with hkernel
            cases h
            obtain ⟨k, hk⟩ := Option.isSome_iff_exists.mp hkernel
            obtain rfl : k.name = root := by simpa using List.find?_some hk
            exact .count hb (List.mem_of_find?_eq_some hk)
          · split_ifs at h with hcell hprev
            · cases h
              cases hcell
              exact .field hb
            · cases h
              cases hprev
              exact .before hb
          · cases h

lemma Shader.rank_intTerm (v : Int32) : (intTerm v).rank = 1 := by
  rw [intTerm]
  split_ifs with hmin hneg
  · rfl
  · rfl
  · have hnonneg : ¬ v.toInt < 0 := by
      rw [Int32.lt_iff_toInt_lt] at hneg
      simpa using hneg
    rw [Term.rank, if_neg hnonneg]

/-- The code of an expression is a name, a literal, a call, or stands in parentheses. -/
lemma Expr.rank_toTerm {ks : KernelSet} {e : Expr Note} {t : Term} (h : e.toTerm ks = .ok t) :
    t.rank = 1 := by
  cases e with
  | ternary n test yes no =>
      simp only [Expr.toTerm, bind_eq_ok, pure_eq_ok] at h
      obtain ⟨_, -, _, -, _, -, rfl⟩ := h
      rfl
  | binary n op left right =>
      simp only [Expr.toTerm, bind_eq_ok, pure_eq_ok] at h
      obtain ⟨_, -, _, -, rfl⟩ := h
      rfl
  | unary n op operand =>
      simp only [Expr.toTerm, bind_eq_ok, pure_eq_ok] at h
      obtain ⟨_, -, rfl⟩ := h
      rfl
  | cast n target operand =>
      simp only [Expr.toTerm, bind_eq_ok, pure_eq_ok] at h
      obtain ⟨_, -, rfl⟩ := h
      rfl
  | int n v text =>
      cases h
      exact rank_intTerm v
  | float n v text =>
      cases h
      rfl
  | bool n v =>
      cases h
      rfl
  | access n path =>
      obtain ⟨b, slot, -, hpath⟩ := Path.emittedAs_of_toTerm h
      cases hpath <;> rfl

lemma Shader.type?_intTerm (ctx : Context) (v : Int32) :
    (intTerm v).type? ctx = some (.scalar .int) := by
  rw [intTerm]
  split_ifs <;> rfl

/-- Floats are written as float literals. -/
lemma Word.isFloatLiteral {text : String} (h : Word .float text.toList) :
    isFloatLiteral text = true := by
  have hend : ∀ c ∈ ([] : List Char).head?, Number.isDigit c = false ∧ c ≠ 'e' ∧ c ≠ 'E' := by simp
  have hlength : 0 < text.toList.length ∧ floatLength text.toList = text.toList.length := by
    generalize text.toList = w at h
    cases h with
    | point hds hfs hne hex =>
        have hfloat := floatLength_point hds hfs hne hex hend
        rw [List.append_nil] at hfloat
        exact ⟨by simp, hfloat⟩
    | exponent hds hne hex =>
        have hfloat := floatLength_exponent hds hne hex fun c hc => (hend c hc).1
        rw [List.append_nil] at hfloat
        exact ⟨by simp [List.length_pos_iff.mpr hne], hfloat⟩
  rw [Shader.isFloatLiteral, Bool.and_eq_true, decide_eq_true_eq, decide_eq_true_eq]
  exact hlength

/-! ## Names in scope

A name outside of all functions can be hidden by a variable, so what is declared there must be told
apart from the variables each time it is used.
-/

namespace Shader

lemma lookup_eq_none_of_notMem {β : Type} {vars : List (String × β)} {name : String}
    (h : name ∉ vars.map Prod.fst) : vars.lookup name = none := by
  rw [List.lookup_eq_none_iff]
  intro x hx
  rw [bne_iff_ne]
  rintro rfl
  exact h (List.mem_map_of_mem hx)

/-- The names of a list of declarations are distinct, and none of the language itself. -/
structure Globals.Sound (g : Globals) : Prop where
  nodup : (g.map Prod.fst).Nodup
  own : ∀ name ∈ g.map Prod.fst, name ∉ languageNames

/-- A name stands for something outside of all functions: it is declared there and no variable
hides it. -/
structure Context.Offers (ctx : Context) (name : String) (e : Entity) : Prop where
  own : name ∉ languageNames
  shown : ctx.locals.lookup name = none
  declared : ctx.globals.lookup name = some e

lemma Globals.Sound.offers {g : Globals} (hg : g.Sound) {name : String} {e : Entity}
    (hmem : (name, e) ∈ g) {locals : VarTypes} (hlocals : name ∉ locals.map Prod.fst) :
    Context.Offers ⟨g, locals⟩ name e where
  own := hg.own name (List.mem_map_of_mem (f := Prod.fst) hmem)
  shown := lookup_eq_none_of_notMem hlocals
  declared := lookup_of_mem_nodup hg.nodup hmem

lemma Context.Offers.var? {ctx : Context} {name : String} {t : ValueType} {writable : Bool}
    (h : ctx.Offers name (.var t writable)) : ctx.var? name = some (t, writable) := by
  rw [Context.var?, h.shown, h.declared]

lemma Context.var?_local {g : Globals} {locals : VarTypes} {name : String} {t : ValueType}
    (h : locals.lookup name = some t) : Context.var? ⟨g, locals⟩ name = some (t, true) := by
  rw [Context.var?, h]

lemma constructor?_eq_none {name : String} (h : name ∉ languageNames) :
    constructor? name = none := by
  rw [constructor?.eq_def]
  split <;> simp [languageNames] at h ⊢

/-- A call of a function with arguments of the types of its parameters. -/
lemma Context.Offers.call? {ctx : Context} {name : String} {params : List (Passing × ValueType)}
    {result : ValueType} (h : ctx.Offers name (.function params result)) {writable : List Bool}
    (hwritable : ((params.zip writable).all fun p => p.1.1 ≠ .inputOutput || p.2) = true) :
    ctx.call? name (params.map Prod.snd) writable = some result := by
  simp only [Context.call?, constructor?_eq_none h.own, h.shown, h.declared, Option.isSome_none,
    Bool.false_eq_true, if_false, true_and]
  exact if_pos hwritable

end Shader

/-- The shader type of a field is that of its type in the rule. -/
lemma Field.valueType_type (d : Field) : d.type.valueType = (fieldType d).value := by
  rw [Field.type, fieldType]
  split_ifs <;> rfl

lemma CountType.valueType_type (c : CountType) : c.type.valueType = c.toShader.value := by
  cases c <;> rfl

/-- `Resolves ctx l ks s`: where a rule sees the names of `s`, its code sees the variables and
accessors that stand for them. -/
structure Resolves (ctx : Context) (l : Layout) (ks : KernelSet) (s : Scope) : Prop where
  var : ∀ {name b slot}, s.find? name = some (b, slot) → b.assignable = true →
    ctx.var? (userVar name) = some (b.type.valueType, true)
  count : ∀ {k b slot}, k ∈ ks.kernels → s.find? k.name = some (b, slot) → b.assignable = false →
    b.type = k.result.type ∧ ctx.var? (countLocal k.name) = some (k.result.toShader.value, true)
  cell : ∀ {b slot}, s.find? cellName = some (b, slot) → b.assignable = false →
    b.type = l.cellType ∧ ctx.var? cellName = some (.vector .int 4, true)
  prev : ∀ {b slot}, s.find? prevName = some (b, slot) → b.assignable = false →
    b.type = l.cellType ∧
      ∀ d ∈ l.fields, ctx.var? (prevLocal d.name) = some ((fieldType d).value, true)
  getters : ∀ d ∈ l.fields, ctx.Offers (getterName d.name) (getter d).entity

/-- Reading a field of the cell in a variable. -/
lemma Shader.type?_getter {ctx : Context} {d : Field}
    (hget : ctx.Offers (getterName d.name) (getter d).entity) {x : String} {writable : Bool}
    (hx : ctx.var? x = some (.vector .int 4, writable)) :
    (Term.call (getterName d.name) [.name x]).type? ctx = some (fieldType d).value :=
  type?_call (types?_one (type?_name hx)) (hget.call? rfl)

/-- A dotted name that has a type is emitted for the binding that gives it this type. -/
lemma Path.HasType.emittedAs {ks : KernelSet} {s : Scope} {n : Note} {path : Path} {t : Term}
    (htype : path.HasType s n.type) (hn : n.scope = s) (ht : path.toTerm ks n = .ok t) :
    ∃ b slot, s.find? path.root = some (b, slot) ∧ b.type.follow? path.rest = some n.type ∧
      path.EmittedAs ks b t := by
  obtain ⟨b, slot, hfind, hpath⟩ := Path.emittedAs_of_toTerm ht
  obtain ⟨b', slot', hfind', hfollow⟩ := htype
  rw [hn] at hfind
  rw [hfind, Option.some.injEq, Prod.mk.injEq] at hfind'
  obtain ⟨rfl, rfl⟩ := hfind'
  exact ⟨b, slot, hfind, hfollow, hpath⟩

/-- **The code of a dotted name has the type of the name**, by whichever variable or accessor it is
read. -/
lemma Resolves.type?_path {ctx : Context} {l : Layout} {ks : KernelSet} {s : Scope}
    (h : Resolves ctx l ks s) {n : Note} {path : Path} {t : Term} (hn : n.scope = s)
    (htype : path.HasType s n.type) (ht : path.toTerm ks n = .ok t) :
    t.type? ctx = some n.type.valueType := by
  obtain ⟨b, slot, hfind, hfollow, hpath⟩ := htype.emittedAs hn ht
  cases hpath with
  | var hb =>
      rw [Ty.follow?, Option.some.injEq] at hfollow
      rw [← hfollow]
      exact type?_name (h.var hfind hb)
  | count hb hk =>
      rw [Ty.follow?, Option.some.injEq] at hfollow
      obtain ⟨htype, hvar⟩ := h.count hk hfind hb
      rw [← hfollow, htype, CountType.valueType_type]
      exact type?_name hvar
  | field hb =>
      obtain ⟨htype, hvar⟩ := h.cell hfind hb
      rw [htype] at hfollow
      obtain ⟨d, hmem, rfl, hdtype⟩ := Layout.exists_field_of_follow? hfollow
      rw [hdtype, Field.valueType_type]
      exact type?_getter (h.getters d hmem) hvar
  | before hb =>
      obtain ⟨htype, hvars⟩ := h.prev hfind hb
      rw [htype] at hfollow
      obtain ⟨d, hmem, rfl, hdtype⟩ := Layout.exists_field_of_follow? hfollow
      rw [hdtype, Field.valueType_type]
      exact type?_name (hvars d hmem)

/-! ## Expressions -/

/-- **The code of an expression has the type of the expression.** -/
theorem Expr.type?_toTerm {ctx : Context} {l : Layout} {ks : KernelSet} {s : Scope}
    (h : Resolves ctx l ks s) :
    ∀ {e : Expr Note} {t : Term}, e.WellTyped s → e.Worded → e.toTerm ks = .ok t →
      t.type? ctx = some e.type.valueType
  | .ternary n test yes no, t, ⟨_, wtest, wyes, wno, htype, hyesType, hnoType⟩,
      ⟨ptest, pyes, pno⟩, ht => by
      simp only [Expr.toTerm, bind_eq_ok, pure_eq_ok] at ht
      obtain ⟨test', htest, yes', hyes, no', hno, rfl⟩ := ht
      have hc := type?_toTerm h wtest ptest htest
      have ha := type?_toTerm h wyes pyes hyes
      have hb := type?_toTerm h wno pno hno
      rw [htype] at hc
      rw [hyesType] at ha
      rw [hnoType] at hb
      have hrank := Expr.rank_toTerm htest
      exact type?_paren (type?_ternary hc ha hb (by omega))
  | .binary n op left right, t, ⟨_, wleft, wright, hsame, htyped⟩, ⟨pleft, pright⟩, ht => by
      simp only [Expr.toTerm, bind_eq_ok, pure_eq_ok] at ht
      obtain ⟨left', hleft, right', hright, rfl⟩ := ht
      have ha := type?_toTerm h wleft pleft hleft
      have hb := type?_toTerm h wright pright hright
      have hleftRank := Expr.rank_toTerm hleft
      have hrightRank := Expr.rank_toTerm hright
      rw [hsame] at hb
      exact type?_paren (type?_tight ha hb htyped.type? (by omega) (by omega))
  | .unary n op operand, t, ⟨_, woperand, htype, htyped⟩, poperand, ht => by
      simp only [Expr.toTerm, bind_eq_ok, pure_eq_ok] at ht
      obtain ⟨operand', hoperand, rfl⟩ := ht
      have ha := type?_toTerm (e := operand) h woperand poperand hoperand
      have hrank := Expr.rank_toTerm hoperand
      rw [htype] at ha
      exact type?_paren (type?_unary ha (by omega) htyped.type?)
  | .cast n target operand, t, ⟨_, woperand, hscalar, htarget⟩, poperand, ht => by
      simp only [Expr.toTerm, bind_eq_ok, pure_eq_ok] at ht
      obtain ⟨operand', hoperand, rfl⟩ := ht
      have ha := type?_toTerm (e := operand) h woperand poperand hoperand
      exact type?_call (types?_one ha) (call?_convert ctx htarget hscalar _)
  | .int n v text, t, ⟨_, htype⟩, _, ht => by
      cases ht
      rw [type?_intTerm, Expr.type, Expr.note, htype]
      rfl
  | .float n v text, t, ⟨_, htype⟩, hword, ht => by
      cases ht
      rw [Term.type?, if_pos (Word.isFloatLiteral hword), Expr.type, Expr.note, htype]
      rfl
  | .bool n v, t, ⟨_, htype⟩, _, ht => by
      cases ht
      rw [Term.type?, Expr.type, Expr.note, htype]
      rfl
  | .access n path, t, ⟨hn, htype⟩, _, ht => h.type?_path hn htype ht

end Cellular
