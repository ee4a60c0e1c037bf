import Cellular.Proofs.Shader.Fetching
import Cellular.Proofs.Shader.Definitions

/-!
# What fetches nothing

A value function sees one cell, and its code reads the fields of that cell from the texel that is
there already.  So it gives a value wherever its cell is given, and fetches nothing.

* `Item.Of` says of which type of the rule language a value of a shader is; operators and
  conversions keep to it (`BinaryOp.Typed.item?`, `UnaryOp.Typed.item?`, `Stage.language_convert`).
* `trace_getter`: reading a field of a cell fetches nothing.
* `Expr.trace_toTerm`: neither does the code of a value function.

This is a statement of progress.  The evaluator with fetches does not look at types, so an operator
could find values that it has no meaning for, and then the whole count would have none.  Value
functions are well-typed, and their types say of every part which kind of value it has; the
induction proves this together with the silence, because an operator is silent only if its operands
have values.  What the values are is left open, as the numbers of a shader are.
-/

namespace Cellular

open Shader

namespace Shader

/-! ## Values of cells

The relation of a value to a type is the one thing that the induction on expressions carries.
-/

/-- `Item.Of t v`: `v` is a value of the type `t` of the rule language. -/
inductive Item.Of {N : Numbers} : Ty → Item N → Prop where
  | int (i : Int) : Of .int (.int i)
  | real (r : N.Real) : Of .float (.real r)
  | bool (b : Bool) : Of .bool (.bool b)

variable {N : Numbers}

lemma Item.Of.toFloat {t : Ty} {v : Item N} (h : v.Of t) (s : Stage) :
    ∃ r, s.language "float" [v] = .done (.real r) [] := by
  cases h <;> exact ⟨_, rfl⟩

end Shader

open Shader

variable {N : Numbers}

lemma BinaryOp.Typed.item? {op : BinaryOp} {t u : Ty} (h : op.Typed t u) {a b : Item N}
    (ha : a.Of t) (hb : b.Of t) : ∃ v, (Op.rule op).item? a b = some v ∧ v.Of u := by
  cases h with
  | or | and =>
      cases ha
      cases hb
      exact ⟨_, rfl, .bool _⟩
  | eq | ne =>
      cases ha <;> cases hb <;> exact ⟨_, rfl, .bool _⟩
  | order hop ht =>
      simp only [List.mem_cons, List.not_mem_nil, or_false] at hop
      rcases Ty.numeric_cases ht with rfl | rfl <;> cases ha <;> cases hb <;>
        rcases hop with rfl | rfl | rfl | rfl <;> exact ⟨_, rfl, .bool _⟩
  | arithmetic hop ht =>
      simp only [List.mem_cons, List.not_mem_nil, or_false] at hop
      rcases Ty.numeric_cases ht with rfl | rfl <;> cases ha <;> cases hb <;>
        rcases hop with rfl | rfl | rfl | rfl
      all_goals first | exact ⟨_, rfl, .int _⟩ | exact ⟨_, rfl, .real _⟩
  | mod =>
      cases ha
      cases hb
      exact ⟨_, rfl, .int _⟩

/-- What decides `&&` or `||` is their value. -/
lemma BinaryOp.Typed.decides {op : BinaryOp} {t u : Ty} (h : op.Typed t u) {a : Item N}
    (hdecides : (Op.rule op).decides a = true) : a.Of u := by
  cases a <;> simp [Op.decides] at hdecides
  rcases hdecides with ⟨rfl, -⟩ | ⟨rfl, -⟩
  · cases h <;> simp_all [Item.Of.bool]
  · cases h <;> simp_all [Item.Of.bool]

lemma UnaryOp.Typed.item? {op : UnaryOp} {t : Ty} (h : op.Typed t) {a : Item N} (ha : a.Of t) :
    ∃ v, (Sign.rule op).item? a = some v ∧ v.Of t := by
  cases h <;> cases ha
  · exact ⟨_, rfl, .bool _⟩
  · exact ⟨_, rfl, .int _⟩
  · exact ⟨_, rfl, .real _⟩

namespace Shader

/-- A conversion is a call of the constructor of its target. -/
lemma Stage.language_convert (s : Stage) {target : TypeName} {t u : Ty}
    (htarget : target.type? = some u) {a : Item N} (ha : a.Of t) :
    ∃ v, s.language target.text [a] = .done v [] ∧ v.Of u := by
  cases target with
  | unknown name => cases htarget
  | bool =>
      cases htarget
      cases ha <;> exact ⟨_, rfl, .bool _⟩
  | int =>
      cases htarget
      cases ha <;> exact ⟨_, rfl, .int _⟩
  | float =>
      cases htarget
      cases ha <;> exact ⟨_, rfl, .real _⟩

lemma trace_intTerm (calls : Functions N) (vars : Items N) (i : Int32) :
    ∃ n, (intTerm i).trace calls vars = .done (.int n) [] := by
  unfold intTerm
  split_ifs
  · exact ⟨N.word (-2147483647 - 1), by simp [Term.op, Term.trace, Op.decides, Op.item?, Op.ofInts]⟩
  · exact ⟨i.toInt, by simp [Term.trace]⟩
  · exact ⟨i.toInt, by simp [Term.trace]⟩

/-- What the code of a value function uses at a visited cell: the cell, the getters of its fields,
and the language itself.  None of it fetches anything. -/
structure Views (s : Stage) (calls : Functions N) (vars : Items N) (l : Layout) : Prop where
  cell : ∃ bytes : List Int, bytes.length = 4 ∧ vars.lookup cellName = some (.ints bytes)
  getters : ∀ d ∈ l.fields, ∀ bytes : List Int, bytes.length = 4 →
    ∃ v : Item N, calls (getterName d.name) [.ints bytes] = .done v [] ∧ v.Of d.type
  language : ∀ name ∈ languageNames, calls name = s.language name

lemma TypeName.text_mem_languageNames {target : TypeName} {u : Ty}
    (h : target.type? = some u) : target.text ∈ languageNames := by
  cases target with
  | unknown name => cases h
  | bool | int | float => decide

end Shader

/-- **The code of a value function fetches nothing and gives a value of its type.** -/
theorem Expr.trace_toTerm {s : Stage} {calls : Functions N} {vars : Items N} {l : Layout}
    {ks : KernelSet} (h : Views s calls vars l) (hnames : ∀ k ∈ ks.kernels, k.name ≠ cellName) :
    ∀ {e : Expr Note} {t : Term}, e.WellTyped (Scope.builtin [] cellName l.cellType) → e.Spelled →
      e.toTerm ks = .ok t → ∃ v, t.trace calls vars = .done v [] ∧ v.Of e.type
  | .ternary n test yes no, t, ⟨_, wtest, wyes, wno, htype, hyesType, hnoType⟩,
      ⟨ptest, pyes, pno⟩, ht => by
      simp only [Expr.toTerm, bind_eq_ok, pure_eq_ok] at ht
      obtain ⟨test', htest, yes', hyes, no', hno, rfl⟩ := ht
      obtain ⟨c, hc, hcOf⟩ := trace_toTerm h hnames wtest ptest htest
      obtain ⟨a, ha, haOf⟩ := trace_toTerm h hnames wyes pyes hyes
      obtain ⟨b, hb, hbOf⟩ := trace_toTerm h hnames wno pno hno
      rw [htype] at hcOf
      rw [hyesType] at haOf
      rw [hnoType] at hbOf
      cases hcOf with
      | bool c =>
          cases c with
          | true => exact ⟨a, by simp [Term.trace, hc, ha], haOf⟩
          | false => exact ⟨b, by simp [Term.trace, hc, hb], hbOf⟩
  | .binary n op left right, t, ⟨_, wleft, wright, hsame, htyped⟩, ⟨pleft, pright⟩, ht => by
      simp only [Expr.toTerm, bind_eq_ok, pure_eq_ok] at ht
      obtain ⟨left', hleft, right', hright, rfl⟩ := ht
      obtain ⟨a, ha, haOf⟩ := trace_toTerm h hnames wleft pleft hleft
      obtain ⟨b, hb, hbOf⟩ := trace_toTerm h hnames wright pright hright
      rw [hsame] at hbOf
      by_cases hdecides : (Op.rule op).decides a = true
      · exact ⟨a, by simp [Term.trace, Term.op, ha, hdecides], htyped.decides hdecides⟩
      · obtain ⟨v, hv, hvOf⟩ := htyped.item? haOf hbOf
        exact ⟨v, by simp [Term.trace, Term.op, ha, hdecides, hb, hv], hvOf⟩
  | .unary n op operand, t, ⟨_, woperand, htype, htyped⟩, poperand, ht => by
      simp only [Expr.toTerm, bind_eq_ok, pure_eq_ok] at ht
      obtain ⟨operand', hoperand, rfl⟩ := ht
      obtain ⟨a, ha, haOf⟩ := trace_toTerm (e := operand) h hnames woperand poperand hoperand
      rw [htype] at haOf
      obtain ⟨v, hv, hvOf⟩ := htyped.item? haOf
      exact ⟨v, by simp [Term.trace, ha, hv], hvOf⟩
  | .cast n target operand, t, ⟨_, woperand, _, htarget⟩, poperand, ht => by
      simp only [Expr.toTerm, bind_eq_ok, pure_eq_ok] at ht
      obtain ⟨operand', hoperand, rfl⟩ := ht
      obtain ⟨a, ha, haOf⟩ := trace_toTerm (e := operand) h hnames woperand poperand hoperand
      obtain ⟨v, hv, hvOf⟩ := s.language_convert htarget haOf
      rw [← h.language _ (TypeName.text_mem_languageNames htarget)] at hv
      exact ⟨v, by simp [Term.trace, Term.traces, ha, hv], hvOf⟩
  | .int n i text, t, ⟨_, htype⟩, _, ht => by
      cases ht
      obtain ⟨j, hj⟩ := trace_intTerm calls vars i
      exact ⟨.int j, hj, by rw [Expr.type, Expr.note, htype]; exact .int j⟩
  | .float n x text, t, ⟨_, htype⟩, ⟨d, hd, _⟩, ht => by
      cases ht
      exact ⟨.real (N.ofDecimal d), by simp [Term.trace, hd],
        by rw [Expr.type, Expr.note, htype]; exact .real _⟩
  | .bool n b, t, ⟨_, htype⟩, _, ht => by
      cases ht
      exact ⟨.bool b, by simp [Term.trace], by rw [Expr.type, Expr.note, htype]; exact .bool b⟩
  | .access n path, t, ⟨hn, htype⟩, _, ht => by
      obtain ⟨b, slot, hfind, hfollow, hpath⟩ := htype.emittedAs hn ht
      -- only the cell is in scope
      obtain ⟨hmem, hname⟩ := mem_of_find? hfind
      replace hmem := List.mem_singleton.mp hmem
      cases hpath with
      | var hb =>
          rw [hmem] at hb
          cases hb
      | count hb hk =>
          rw [hmem] at hname
          exact absurd hname.symm (hnames _ hk)
      | before hb =>
          rw [hmem] at hname
          exact absurd (show cellName = prevName from hname) (by decide)
      | field hb =>
          rw [hmem] at hfollow
          obtain ⟨d, hdmem, rfl, hdtype⟩ := Layout.exists_field_of_follow? hfollow
          obtain ⟨bytes, hbytes, hcell⟩ := h.cell
          obtain ⟨v, hv, hvOf⟩ := h.getters d hdmem bytes hbytes
          exact ⟨v, by simp [Term.trace, Term.traces, cellTerm, hcell, hv],
            by rwa [Expr.type, Expr.note, hdtype]⟩

namespace Shader

section Getters

variable (calls : Functions N) {vars : Items N} {bytes : List Int}

/-- The bits of a span are an integer. -/
lemma trace_spanTerm {s : Span} (hs : s.InRecord)
    (hcell : vars.lookup cellName = some (.ints bytes)) (hbytes : bytes.length = 4) :
    ∃ n, (spanTerm s).trace calls vars = .done (.int n) [] := by
  have hbyte : s.byte < bytes.length := hbytes ▸ Nat.lt_succ_of_le hs.byte_le
  have hlow : (s.low : Int) < 32 := by
    have := hs.low_add_length_le
    omega
  refine ⟨(bytes[s.byte] >>> s.low).land ((2 ^ s.length - 1 : Nat) : Int), ?_⟩
  simp [spanTerm, maskTerm, cellTerm, Term.trace, hcell, Item.component?, Op.decides, Op.item?,
    Op.ofInts, hlow, hbyte]

/-- Reading a number adds one span after the other to a variable. -/
lemma trace_addSpans (hcell : vars.lookup cellName = some (.ints bytes)) (hbytes : bytes.length = 4)
    (rest : List Code) :
    ∀ {spans : List Span}, (∀ s ∈ spans, s.InRecord) → ∀ n : Int, ∃ m,
      Code.traceAll calls (spans.map (fun s => .set (.name "val")
        (.binary .bitOr (.paren (.binary .shiftLeft (.name "val") (.int s.length)))
          (.paren (spanTerm s)))) ++ rest) (("val", .int n) :: vars)
        = Code.traceAll calls rest (("val", .int m) :: vars)
  | [], _, n => ⟨n, rfl⟩
  | s :: spans, hspans, n => by
      obtain ⟨hs, hmore⟩ := List.forall_mem_cons.mp hspans
      have hlength : (s.length : Int) < 32 := by
        have := hs.low_add_length_le
        omega
      have hcell' : List.lookup cellName (("val", Item.int n) :: vars) = some (.ints bytes) := hcell
      obtain ⟨b, hb⟩ := trace_spanTerm calls hs hcell' hbytes
      obtain ⟨m, hm⟩ := trace_addSpans hcell hbytes rest hmore ((N.word (n <<< s.length)).lor b)
      refine ⟨m, ?_⟩
      rw [← hm, List.map_cons, List.cons_append, Code.traceAll]
      simp [Code.set, Code.trace, Term.trace, Op.decides, Op.item?, Op.ofInts, hlength, hb, stored?,
        Items.assign]

lemma trace_numberGetter {spans : List Span} (hspans : ∀ s ∈ spans, s.InRecord)
    (hcell : vars.lookup cellName = some (.ints bytes)) (hbytes : bytes.length = 4) :
    ∃ n, Code.traceAll calls (numberGetter spans) vars = .done (.result (.int n)) [] := by
  rw [numberGetter.eq_def]
  split
  · next s =>
      obtain ⟨n, hn⟩ := trace_spanTerm calls (hspans s (by simp)) hcell hbytes
      exact ⟨n, by simp [Code.traceAll, Code.trace, hn]⟩
  · obtain ⟨n, hn⟩ := trace_addSpans calls hcell hbytes [.result (.name "val")] hspans 0
    refine ⟨n, ?_⟩
    rw [List.cons_append, Code.traceAll]
    simp [Code.trace, Term.trace, hn, Code.traceAll]

/-- **Reading a field fetches nothing**, whatever bytes the cell holds. -/
lemma trace_getter {d : Field} (hd : d.Placed) (globals : Items N) (hbytes : bytes.length = 4) :
    ∃ v : Item N, (getter d).trace globals calls [.ints bytes] = .done v [] ∧ v.Of d.type := by
  have hcell : List.lookup cellName ((cellName, Item.ints bytes) :: globals)
      = some (.ints bytes) := by simp
  rcases hd.kind with hflag | hnumber
  · obtain ⟨s, hspans, -⟩ := hd.flag_span hflag
    have hs : s.InRecord := hd.inRecord s (by simp [hspans])
    obtain ⟨n, hn⟩ := trace_spanTerm calls hs hcell hbytes
    refine ⟨.bool (n ≠ 0), ?_, ?_⟩
    · simp [Function.trace, getter, hflag, hspans, flagGetter, Code.traceAll, Code.trace, Term.op,
        Term.trace, hn, Op.decides, Op.item?, Op.ofInts]
    · rw [Field.type, if_pos hflag]
      exact .bool _
  · have hkind : d.kind ≠ .flag := by simp [hnumber]
    obtain ⟨n, hn⟩ := trace_numberGetter calls hd.inRecord hcell hbytes
    refine ⟨.int n, ?_, ?_⟩
    · simp [Function.trace, getter, hkind, hn]
    · rw [Field.type, if_neg hkind]
      exact .int n

end Getters

end Shader

end Cellular
