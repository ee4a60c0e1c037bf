import Cellular.Proofs.Layout.Bits
import Cellular.Proofs.Shader.Semantics
import Cellular.Shader.Generate

/-!
# Accessors of shaders and of the host

A shader reads and writes state fields by functions of its own, on an `ivec4` of signed words.  This
module runs them and compares.

* `Record.datum` is a record as a shader holds it, `Field.datum` the value of a field.
* `eval_spanTerm` and `exec_spanUpdate` run the code of one span.
* `execAll_readSpans` and `execAll_numberSetter` go through all spans of a number by induction.
* `accessors_agree` says that the emitted functions are `Field.get` and `Field.set`.

The host keeps the value of a field in an unsigned word, the shader in a signed one, and the two are
never compared as numbers.  What is kept from statement to statement is that their bits agree, and
only those bits that are still to be written: a right shift moves copies of the sign into the one
word and zeros into the other, from above, and the spans that are left take as many bits as have not
been reached by that.  This is the invariant of `execAll_numberSetter`; with no spans left it says
nothing, and both sides have written the same bytes.  A getter needs no such care, since all that it
puts together are bytes.
-/

namespace Cellular

open Shader Words

/-! ## Records and fields as shader values

A component of the vector is a byte in a word of 32 bits.  It is never negative, and setting it
leaves it so.
-/

namespace Record

/-- The four bytes as signed words. -/
def components (r : Record) : List Int32 :=
  [r.r.toUInt32.toInt32, r.g.toUInt32.toInt32, r.b.toUInt32.toInt32, r.a.toUInt32.toInt32]

/-- A record as a shader holds it. -/
def datum (r : Record) : Datum := .vector r.components

@[simp] lemma type_datum (r : Record) : r.datum.type = .ivec4 := rfl

lemma getElem?_components (r : Record) {n : Nat} (h : n ≤ 3) :
    r.components[n]? = some (r.byte n).toUInt32.toInt32 := by
  interval_cases n <;> rfl

lemma set_components (r : Record) {n : Nat} (h : n ≤ 3) (v : UInt8) :
    r.components.set n v.toUInt32.toInt32 = (r.setByte n v).components := by
  interval_cases n <;> rfl

/-- A byte is a word from 0 to 255. -/
lemma byte_range (b : UInt8) : 0 ≤ b.toUInt32.toInt32 ∧ b.toUInt32.toInt32 ≤ 255 := by
  have hnat : b.toUInt32.toInt32.toBitVec.toNat = b.toNat := by
    simp [UInt32.toBitVec_toInt32, UInt8.toBitVec_toUInt32]
  have hlt := b.toNat_lt
  have hint : b.toUInt32.toInt32.toInt = (b.toNat : Int) := by
    rw [← Int32.toInt_toBitVec, BitVec.toInt_eq_toNat_of_lt (by omega), hnat]
  refine ⟨Int32.le_iff_toInt_le.mpr ?_, Int32.le_iff_toInt_le.mpr ?_⟩
  · rw [hint]
    simp
  · rw [hint]
    have h255 : (255 : Int32).toInt = 255 := by decide
    omega

lemma components_range (r : Record) : ∀ c ∈ r.components, 0 ≤ c ∧ c ≤ 255 := by
  simp [components, byte_range]

end Record

/-- The value of a field as a shader holds it: a truth value for a flag, else an integer. -/
def Field.datum (f : Field) (r : Record) : Datum :=
  if f.kind = .flag then .bool (f.get r != 0) else .int (f.get r).toInt32

/-! ## One span

The emitted code of a span is one expression or one assignment.  Masks and shift counts are
literals, small enough to be the same number in both kinds of words.
-/

namespace Shader

variable (calls : Calls) {vars : Vars}

lemma eval_binary_ints (op : Op) {l r : Term} {a b : Int32}
    (hl : l.eval calls vars = some (.int a)) (hr : r.eval calls vars = some (.int b)) :
    (Term.binary op l r).eval calls vars = op.onInts a b := by
  have hopen : op.decided? (.int a) = none := by
    unfold Op.decided?
    split <;> simp_all
  simp [Term.eval, hl, hr, hopen, Op.value?]

@[simp] lemma eval_paren (t : Term) : (Term.paren t).eval calls vars = t.eval calls vars := by
  rw [Term.eval]

lemma eval_nat {n : Nat} (h : n < 2147483648) :
    (Term.int (n : Int)).eval calls vars = some (.int (Int32.ofNat n)) := by
  rw [Term.eval, Int.natAbs_natCast, if_pos h]
  rfl

lemma eval_zero : (Term.int 0).eval calls vars = some (.int 0) := by
  rw [Term.eval]
  rfl

lemma eval_maskTerm {s : Span} (h : s.length ≤ 8) :
    (maskTerm s).eval calls vars = some (.int (Int32.ofNat (2 ^ s.length - 1))) := by
  have hpow : 2 ^ s.length ≤ 2 ^ 8 := Nat.pow_le_pow_right (by omega) h
  rw [maskTerm, Term.eval]
  exact if_pos (show 2 ^ s.length - 1 < 4294967296 by omega)

/-- Numbers below the width of a word are allowed as shift counts. -/
lemma count_allowed {n : Nat} (h : n < 32) : 0 ≤ Int32.ofNat n ∧ Int32.ofNat n < 32 := by
  interval_cases n <;> decide

lemma eval_shiftRight {t : Term} {a : Int32} {n : Nat} (h : n < 32)
    (ht : t.eval calls vars = some (.int a)) :
    (Term.binary .shiftRight t (.int n)).eval calls vars = some (.int (a >>> Int32.ofNat n)) := by
  rw [eval_binary_ints calls .shiftRight ht (eval_nat calls (by omega))]
  exact if_pos (count_allowed h)

lemma eval_shiftLeft {t : Term} {a : Int32} {n : Nat} (h : n < 32)
    (ht : t.eval calls vars = some (.int a)) :
    (Term.binary .shiftLeft t (.int n)).eval calls vars = some (.int (a <<< Int32.ofNat n)) := by
  rw [eval_binary_ints calls .shiftLeft ht (eval_nat calls (by omega))]
  exact if_pos (count_allowed h)

/-- The byte that a span lies in. -/
lemma eval_component {s : Span} (h : s.InRecord) {r : Record}
    (hcell : vars.lookup cellName = some r.datum) :
    (Term.component cellTerm s.byte).eval calls vars
      = some (.int (r.byte s.byte).toUInt32.toInt32) := by
  simp [Term.eval, cellTerm, hcell, Record.datum, Datum.component?,
    r.getElem?_components h.byte_le]

/-- The term of a span gives the bits that `Span.get` gives. -/
lemma eval_spanTerm {s : Span} (h : s.InRecord) {r : Record}
    (hcell : vars.lookup cellName = some r.datum) :
    (spanTerm s).eval calls vars = some (.int (s.get r).toInt32) := by
  have hlen := h.low_add_length_le
  have hmoved := eval_shiftRight calls (n := s.low) (by omega) (eval_component calls h hcell)
  rw [spanTerm, eval_binary_ints calls .bitAnd ((eval_paren _ _).trans hmoved)
    (eval_maskTerm calls (by omega))]
  simp only [Op.onInts, Span.get]
  rw [Span.get_eq_shader h]

/-- The variables inside an accessor: its value, and the record that it works on. -/
def accessorVars (d : Datum) (r : Record) : Vars := [("val", d), (cellName, r.datum)]

@[simp] lemma lookup_val (d : Datum) (r : Record) : (accessorVars d r).lookup "val" = some d := rfl

@[simp] lemma lookup_cell (d : Datum) (r : Record) :
    (accessorVars d r).lookup cellName = some r.datum := rfl

/-- Stores a word in one byte of the record. -/
lemma exec_setByte (start : Nat) {d : Datum} {r : Record} {n : Nat} (hn : n ≤ 3) {value : Term}
    {b : UInt8} (hvalue : value.eval calls (accessorVars d r) = some (.int b.toUInt32.toInt32)) :
    (Code.set (.component cellTerm n) value).exec calls start (accessorVars d r)
      = some (.next (accessorVars d (r.setByte n b))) := by
  have hset := r.set_components hn b
  have hassign : (accessorVars d r).assign cellName (r.setByte n b).datum
      = some (accessorVars d (r.setByte n b)) := rfl
  simp only [Code.set, Code.exec, hvalue, cellTerm, store?, lookup_cell, Record.datum,
    Option.bind_eq_bind, Option.bind_some, r.getElem?_components hn, combine?, hset]
  simp only [Record.datum] at hassign
  rw [hassign]
  rfl

/-- The code that writes one span stores what `Span.set` stores. -/
lemma exec_spanUpdate (start : Nat) {s : Span} (h : s.InRecord) {d : Datum} {r : Record}
    {mask value : Term} {x : Int32} {v : UInt32}
    (hmask : mask.eval calls (accessorVars d r) = some (.int (Int32.ofNat (2 ^ s.length - 1))))
    (hvalue : value.eval calls (accessorVars d r)
      = some (.int (x &&& Int32.ofNat (2 ^ s.length - 1))))
    (hxv : ∀ i < s.length, x.toBitVec.getLsbD i = v.toBitVec.getLsbD i) :
    (spanUpdate s mask value).exec calls start (accessorVars d r)
      = some (.next (accessorVars d (s.set r v))) := by
  have hlen := h.low_add_length_le
  have hlow : s.low < 32 := by omega
  refine exec_setByte calls start h.byte_le ?_
  rw [← Span.set_eq_shader h (r.byte s.byte) hxv]
  have hhole := eval_shiftLeft calls hlow hmask
  have hkept : (Term.binary .bitAnd (.component cellTerm s.byte)
      (.unary .complement (.paren (.binary .shiftLeft mask (.int s.low))))).eval calls
        (accessorVars d r) = some (.int ((r.byte s.byte).toUInt32.toInt32
          &&& ~~~(Int32.ofNat (2 ^ s.length - 1) <<< Int32.ofNat s.low))) := by
    rw [eval_binary_ints calls .bitAnd (eval_component calls h (lookup_cell d r))]
    · rfl
    · rw [Term.eval, eval_paren, hhole]
      rfl
  have hmoved := eval_shiftLeft calls hlow ((eval_paren calls value).trans hvalue)
  rw [eval_binary_ints calls .bitOr ((eval_paren _ _).trans hkept) ((eval_paren _ _).trans hmoved)]
  rfl

/-! ## All spans of a field

A number may lie in several bytes.  Its accessors are lists of statements, one for each span, and
are run by induction on the list with the variables of the accessor free.
-/

lemma execAll_append (start : Nat) (cs ds : List Code) {inner : Vars}
    (h : Code.execAll calls start cs vars = some (.next inner)) :
    Code.execAll calls start (cs ++ ds) vars = Code.execAll calls start ds inner := by
  induction cs generalizing vars with
  | nil =>
      simp only [Code.execAll, Option.some.injEq, Flow.next.injEq] at h
      rw [h, List.nil_append]
  | cons c cs ih =>
      rw [Code.execAll] at h
      rw [List.cons_append, Code.execAll]
      cases hc : c.exec calls start vars with
      | none => simp [hc] at h
      | some flow =>
          cases flow with
          | next mid =>
              simp only [hc, Option.bind_eq_bind, Option.bind_some] at h ⊢
              exact ih h
          | skip mid => simp [hc] at h
          | result v => simp [hc] at h

/-- Statements that end normally, one behind the other. -/
lemma execAll_cons (start : Nat) {c : Code} (cs : List Code) {inner : Vars}
    (h : c.exec calls start vars = some (.next inner)) :
    Code.execAll calls start (c :: cs) vars = Code.execAll calls start cs inner := by
  rw [Code.execAll, h]
  rfl

lemma exec_setVal (start : Nat) {r : Record} {x y : Int32} {value : Term}
    (h : value.eval calls (accessorVars (.int x) r) = some (.int y)) :
    (Code.set (.name "val") value).exec calls start (accessorVars (.int x) r)
      = some (.next (accessorVars (.int y) r)) := by
  simp only [Code.set, Code.exec, h, store?, lookup_val, combine?, Option.bind_eq_bind,
    Option.bind_some]
  rfl

lemma eval_val (x : Int32) (r : Record) :
    (Term.name "val").eval calls (accessorVars (.int x) r) = some (.int x) := by
  rw [Term.eval, lookup_val]

/-- Moving the bits of the next span in behind those read so far is the same on signed words. -/
lemma shiftIn_eq (v w : UInt32) {n : Nat} (h : n < 32) :
    (v.toInt32 <<< Int32.ofNat n) ||| w.toInt32 = ((v <<< UInt32.ofNat n) ||| w).toInt32 := by
  apply Int32.toBitVec.inj
  simp only [Int32.toBitVec_or, UInt32.toBitVec_or, UInt32.toBitVec_toInt32, int_shiftLeft _ h,
    uint_shiftLeft _ h]

/-- The statement of a number's getter that reads one span. -/
def readSpan (s : Span) : Code :=
  .set (.name "val") (.binary .bitOr (.paren (.binary .shiftLeft (.name "val") (.int s.length)))
    (.paren (spanTerm s)))

lemma exec_readSpan (start : Nat) {s : Span} (h : s.InRecord) (v : UInt32) (r : Record) :
    (readSpan s).exec calls start (accessorVars (.int v.toInt32) r)
      = some (.next (accessorVars
          (.int ((v <<< UInt32.ofNat s.length) ||| s.get r).toInt32) r)) := by
  have hlen := h.low_add_length_le
  refine exec_setVal calls start ?_
  have hmoved := eval_shiftLeft calls (n := s.length) (by omega) (eval_val calls v.toInt32 r)
  have hbits := eval_spanTerm calls h (lookup_cell (.int v.toInt32) r)
  rw [eval_binary_ints calls .bitOr ((eval_paren _ _).trans hmoved) ((eval_paren _ _).trans hbits),
    ← shiftIn_eq v _ (by omega)]
  rfl

/-- The getter of a number goes through its spans as `Field.getSpans` does. -/
lemma execAll_readSpans (start : Nat) (r : Record) {ss : List Span} (h : ∀ s ∈ ss, s.InRecord)
    (v : UInt32) :
    Code.execAll calls start (ss.map readSpan) (accessorVars (.int v.toInt32) r)
      = some (.next (accessorVars (.int (Field.getSpans r v ss).toInt32) r)) := by
  induction ss generalizing v with
  | nil => rfl
  | cons s ss ih =>
      rw [List.map_cons, execAll_cons calls start _ (exec_readSpan calls start (h s (by simp)) v r),
        ih (fun t ht => h t (by simp [ht]))]
      rfl

/-- After a span both values have moved down.  The sign that a signed word moves in stays above all
bits that are still to be written. -/
lemma shiftDown_agree {n m : Nat} (h : n + m ≤ 32) (hn : n < 32) {x : Int32} {v : UInt32}
    (hxv : ∀ i < n + m, x.toBitVec.getLsbD i = v.toBitVec.getLsbD i) :
    ∀ i < m, (x >>> Int32.ofNat n).toBitVec.getLsbD i
      = (v >>> UInt32.ofNat n).toBitVec.getLsbD i := by
  intro i hi
  rw [int_shiftRight x hn, uint_shiftRight v hn, BitVec.getLsbD_sshiftRight,
    BitVec.getLsbD_ushiftRight, if_pos (by omega), hxv (n + i) (by omega)]
  simp only [Bool.and_eq_right_iff_imp, Bool.not_eq_eq_eq_not, Bool.not_true,
    decide_eq_false_iff_not]
  intro _
  omega

/-- The setter of a number goes through its spans, the least significant first, as `Field.setSpans`
does.  The invariant is that both values agree on the bits that the remaining spans have room
for. -/
lemma execAll_numberSetter (start : Nat) {ss : List Span} (h : ∀ s ∈ ss, s.InRecord)
    (hwidth : Span.lengthAll ss ≤ 32) (r : Record) (x : Int32) (v : UInt32)
    (hxv : ∀ i < Span.lengthAll ss, x.toBitVec.getLsbD i = v.toBitVec.getLsbD i) :
    ∃ y, Code.execAll calls start (numberSetter ss) (accessorVars (.int x) r)
      = some (.next (accessorVars (.int y) (Field.setSpans r v ss))) := by
  induction ss generalizing r x v with
  | nil => exact ⟨x, rfl⟩
  | cons s more ih =>
      have hs := h s (by simp)
      have hlen := hs.low_add_length_le
      rw [Span.lengthAll] at hwidth hxv
      have hmask : (maskTerm s).eval calls (accessorVars (.int x) r)
          = some (.int (Int32.ofNat (2 ^ s.length - 1))) := eval_maskTerm calls (by omega)
      have hvalue := eval_binary_ints calls .bitAnd (eval_val calls x r) hmask
      have hupdate := exec_spanUpdate calls start hs hmask hvalue (fun i hi => hxv i (by omega))
      rw [numberSetter, List.cons_append, execAll_cons calls start _ hupdate]
      cases more with
      | nil => exact ⟨x, rfl⟩
      | cons t more =>
          have hshift := exec_setVal calls start (eval_shiftRight calls (n := s.length) (by omega)
            (eval_val calls x (s.set r v)))
          rw [List.isEmpty_cons, if_neg (by simp), List.singleton_append,
            execAll_cons calls start _ hshift]
          exact ih (fun u hu => h u (by simp [hu])) (by omega) (s.set r v) _ _
            (shiftDown_agree hwidth (by omega) hxv)

/-! ## Whole accessors

A getter of one span returns its expression at once, a getter of several collects them in a
variable, and a flag is a single bit.  The cases are put together here.
-/

lemma numberGetter_cons_cons (s t : Span) (more : List Span) :
    numberGetter (s :: t :: more)
      = .declare .int "val" (.int 0)
        :: ((s :: t :: more).map readSpan ++ [.result (.name "val")]) :=
  rfl

/-- The getter of a number returns what `Field.getSpans` reads. -/
lemma execAll_numberGetter (r : Record) {ss : List Span} (hne : ss ≠ [])
    (h : ∀ s ∈ ss, s.InRecord) :
    Code.execAll calls 0 (numberGetter ss) [(cellName, r.datum)]
      = some (.result (.int (Field.getSpans r 0 ss).toInt32)) := by
  rcases ss with _ | ⟨s, _ | ⟨t, more⟩⟩
  · exact absurd rfl hne
  · have hbits := eval_spanTerm calls (h s (by simp))
      (show List.lookup cellName [(cellName, r.datum)] = some r.datum from rfl)
    have hzero : (0 <<< UInt32.ofNat s.length ||| s.get r) = s.get r := by simp
    simp only [numberGetter, Code.execAll, Code.exec, hbits, Option.bind_eq_bind, Option.bind_some,
      pure, Field.getSpans, hzero]
  · have hdeclare : (Code.declare .int "val" (.int 0)).exec calls 0 [(cellName, r.datum)]
        = some (.next (accessorVars (.int (0 : UInt32).toInt32) r)) := by
      rw [Code.exec, eval_zero]
      rfl
    rw [numberGetter_cons_cons, execAll_cons calls 0 _ hdeclare,
      execAll_append calls 0 _ _ (execAll_readSpans calls 0 r h 0), Code.execAll, Code.exec,
      eval_val]
    rfl

/-- The getter of a flag returns whether its bit is set. -/
lemma execAll_flagGetter (r : Record) {s : Span} (h : s.InRecord) :
    Code.execAll calls 0 (flagGetter s) [(cellName, r.datum)]
      = some (.result (.bool (s.get r != 0))) := by
  have hbits := eval_spanTerm calls h
    (show List.lookup cellName [(cellName, r.datum)] = some r.datum from rfl)
  have hne : decide ((s.get r).toInt32 ≠ 0) = (s.get r != 0) := by
    by_cases hzero : s.get r = 0
    · rw [hzero]
      rfl
    · have hword : (s.get r).toInt32 ≠ 0 := fun heq => hzero (congrArg Int32.toUInt32 heq)
      simp [hzero, hword]
  have htest := eval_binary_ints calls (.rule .ne) ((eval_paren _ _).trans hbits) (eval_zero calls)
  rw [flagGetter, Code.execAll, Code.exec, Term.op, htest]
  simp only [Op.onInts, hne, Option.bind_eq_bind, Option.bind_some, pure]

/-- The setter of a flag sets or clears its bit. -/
lemma execAll_flagSetter (r : Record) {s : Span} (h : s.InRecord) (hone : s.length = 1) (b : Bool) :
    Code.execAll calls 0 (flagSetter s) (accessorVars (.bool b) r)
      = some (.next (accessorVars (.bool b) (s.set r (if b then 1 else 0)))) := by
  have hmask : (Term.hex 1).eval calls (accessorVars (.bool b) r)
      = some (.int (Int32.ofNat (2 ^ s.length - 1))) := by
    rw [hone, Term.eval]
    rfl
  have hvalue : (Term.ternary (.name "val") (.int 1) (.int 0)).eval calls (accessorVars (.bool b) r)
      = some (.int ((if b then 1 else 0) &&& Int32.ofNat (2 ^ s.length - 1))) := by
    rw [hone]
    cases b <;> simp [Term.eval]
  have hagree : ∀ i < s.length, (if b then 1 else 0 : Int32).toBitVec.getLsbD i
      = (if b then 1 else 0 : UInt32).toBitVec.getLsbD i := by
    intro i _
    cases b <;> rfl
  rw [flagSetter, execAll_cons calls 0 _ (exec_spanUpdate calls 0 h hmask hvalue hagree)]
  rfl

/-- The emitted getter of a placed field reads what `Field.get` reads. -/
lemma value?_getter {f : Field} (h : f.Placed) (r : Record) :
    (getter f).value? calls [r.datum] = some (f.datum r) := by
  rcases h.kind with hkind | hkind
  · obtain ⟨s, hspans, -⟩ := h.flag_span hkind
    have hget : f.get r = s.get r := by simp [Field.get, hspans, Field.getSpans]
    have hrun := execAll_flagGetter calls r (h.inRecord s (by simp [hspans]))
    simp only [Function.value?, Function.run?, Function.bind?, getter, fieldType, hkind, hspans,
      List.headD_cons, if_true, List.map_cons, List.map_nil, Record.type_datum,
      Option.bind_eq_bind, Option.bind_some, List.zip_cons_cons, List.zip_nil_right,
      List.reverse_singleton, hrun, Field.datum, hget]
    rfl
  · have hflag : f.kind ≠ .flag := by simp [hkind]
    have hrun := execAll_numberGetter calls r h.spans_ne_nil h.inRecord
    simp only [Function.value?, Function.run?, Function.bind?, getter, fieldType, hflag, if_false,
      if_true, List.map_cons, List.map_nil, Record.type_datum, Option.bind_eq_bind,
      Option.bind_some, List.zip_cons_cons, List.zip_nil_right, List.reverse_singleton, hrun,
      Field.datum, Field.get]
    rfl

/-- The emitted setter of a flag writes what `Field.set` writes. -/
lemma update?_setter_flag {f : Field} (h : f.Placed) (hkind : f.kind = .flag) (r : Record)
    (b : Bool) :
    (setter f).update? calls [r.datum, .bool b] = some (f.set r (if b then 1 else 0)).datum := by
  obtain ⟨s, hspans, hone⟩ := h.flag_span hkind
  have hset : f.set r (if b then 1 else 0) = s.set r (if b then 1 else 0) := by
    simp [Field.set, hspans, Field.setSpans]
  have hrun := execAll_flagSetter calls r (h.inRecord s (by simp [hspans])) hone b
  have hbind : (setter f).bind? [r.datum, .bool b] = some (accessorVars (.bool b) r) := by
    simp [Function.bind?, setter, fieldType, hkind, accessorVars]
  have hbody : (setter f).body = flagSetter s := by simp [setter, hkind, hspans]
  simp only [Function.update?, Function.run?, hbind, hbody, Option.bind_eq_bind, Option.bind_some,
    hrun, hset]
  simp [setter]

/-- The emitted setter of a number writes what `Field.set` writes. -/
lemma update?_setter_number {f : Field} (h : f.Placed) (hkind : f.kind = .number) (r : Record)
    (v : Int32) :
    (setter f).update? calls [r.datum, .int v] = some (f.set r v.toUInt32).datum := by
  have hflag : f.kind ≠ .flag := by simp [hkind]
  have hwidth : Span.lengthAll f.spans.reverse ≤ 32 := by
    rw [Span.lengthAll_reverse]
    exact h.width_le
  obtain ⟨y, hrun⟩ := execAll_numberSetter calls 0
    (fun s hs => h.inRecord s (List.mem_reverse.mp hs)) hwidth r v v.toUInt32 (fun i _ => rfl)
  have hbind : (setter f).bind? [r.datum, .int v] = some (accessorVars (.int v) r) := by
    simp [Function.bind?, setter, fieldType, hflag, accessorVars]
  have hbody : (setter f).body = numberSetter f.spans.reverse := by simp [setter, hflag]
  simp only [Function.update?, Function.run?, hbind, hbody, Option.bind_eq_bind, Option.bind_some,
    hrun, Field.set]
  simp [setter]

/-- **Emitted accessors agree with those of the host.**  On the four bytes of a record, as signed
words, the emitted getter of a packed field returns the value that `Field.get` reads, and the
emitted setter leaves the bytes that `Field.set` writes, for every truth value or every word. -/
theorem accessors_agree {specs : List FieldSpec} {l : Layout} (h : Layout.pack specs = .ok l)
    {f : Field} (hf : f ∈ l.fields) (r : Record) :
    ((f.kind = .flag ∧
        (getter f).value? calls [.vector r.components] = some (.bool (f.get r != 0)) ∧
        ∀ b : Bool, (setter f).update? calls [.vector r.components, .bool b]
          = some (.vector (f.set r (if b then 1 else 0)).components)) ∨
      (f.kind = .number ∧
        (getter f).value? calls [.vector r.components] = some (.int (f.get r).toInt32) ∧
        ∀ v : Int32, (setter f).update? calls [.vector r.components, .int v]
          = some (.vector (f.set r v.toUInt32).components))) ∧
    ∀ (v : UInt32), ∀ c ∈ (f.set r v).components, 0 ≤ c ∧ c ≤ 255 := by
  have hplaced := Layout.placed_of_pack h hf
  have hget := value?_getter calls hplaced r
  refine ⟨?_, fun v => Record.components_range _⟩
  rcases hplaced.kind with hkind | hkind
  · refine Or.inl ⟨hkind, ?_, update?_setter_flag calls hplaced hkind r⟩
    rw [Field.datum, if_pos hkind] at hget
    exact hget
  · refine Or.inr ⟨hkind, ?_, update?_setter_number calls hplaced hkind r⟩
    rw [Field.datum, if_neg (by simp [hkind])] at hget
    exact hget

/-- The functions of code that calls none. -/
def Calls.none : Calls := ⟨fun _ _ => .none, fun _ _ _ => .none⟩

/-- A number behind a flag, whose ten bits lie in two bytes. -/
theorem accessors_agree_twoBytes :
    ∃ l f, Layout.pack Layout.flagAndAge = .ok l ∧ f ∈ l.fields ∧ f.kind = .number ∧
      (getter f).value? Calls.none [.vector (Record.components ⟨255, 5, 0, 0⟩)]
        = some (.int (f.get ⟨255, 5, 0, 0⟩).toInt32) ∧
      (setter f).update? Calls.none [.vector (Record.components ⟨1, 0, 0, 0⟩), .int (-1)]
        = some (.vector (f.set ⟨1, 0, 0, 0⟩ (-1 : Int32).toUInt32).components) := by
  obtain ⟨l, h⟩ : ∃ l, Layout.pack Layout.flagAndAge = .ok l :=
    ⟨_, (Layout.pack_ok_iff _ _).mpr ⟨by decide, by decide, by decide, rfl⟩⟩
  obtain ⟨f, hf, hkind⟩ : ∃ f ∈ l.fields, f.kind = .number := by
    obtain ⟨-, -, -, rfl⟩ := (Layout.pack_ok_iff _ _).mp h
    exact ⟨_, List.mem_cons_of_mem _ List.mem_cons_self, rfl⟩
  refine ⟨l, f, h, hf, hkind, ?_, ?_⟩
  · rcases (accessors_agree Calls.none h hf ⟨255, 5, 0, 0⟩).1 with ⟨hflag, -⟩ | ⟨-, hget, -⟩
    · cases hkind.symm.trans hflag
    · exact hget
  · rcases (accessors_agree Calls.none h hf ⟨1, 0, 0, 0⟩).1 with ⟨hflag, -⟩ | ⟨-, -, hset⟩
    · cases hkind.symm.trans hflag
    · exact hset (-1)

end Shader

end Cellular
