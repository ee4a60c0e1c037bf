import Cellular.Proofs.Shader.Checking

/-!
# What has no shader code

The language has no word for the value of a whole cell, but it lets a rule write one: two cells can
be compared, or chosen between.  This is all that a checked rule can contain and a shader cannot.

* `Expr.accesses` and `Stmt.accesses` are the dotted names of a rule, in the order in which their
  code is generated.
* `Access.Stands` says what such a name stands for where a rule is in a scope like those of checked
  rules (`Scope.Ruled`); `Access.Placed.stands`: there is nothing else.
* `Generation.Translates` says that code is generated exactly up to the first name of a whole cell.
* `Shader.generate_fails_iff` is the statement for a shader.

The generation of code can fail in more ways than one can see from a rule: it looks up names,
kernels and operators, and has an error for each that is not found.  For checked rules all but one
of these are impossible.  Instead of excluding them one by one, `Generation.Translates` says what
the generation does in terms of the list of names: it succeeds if all of them are scalar, and
otherwise it gives the error of the first one that is not.  This is closed under sequencing, with
the lists joined, and so the proof for a construct is that of its parts.
-/

namespace Cellular

open Shader

/-! ## The names in a rule

The order of the names matters as the first error ends the generation.  In an assignment the value
is translated before the target.
-/

/-- A dotted name in a rule, with its note. -/
structure Access where
  note : Note
  path : Path

/-- Whether the name has a type with properties. -/
def Access.isStruct (a : Access) : Bool := a.note.type.kind = .struct

/-- The names in an expression. -/
def Expr.accesses : Expr Note → List Access
  | .ternary _ test yes no => test.accesses ++ (yes.accesses ++ no.accesses)
  | .binary _ _ left right => left.accesses ++ right.accesses
  | .unary _ _ operand => operand.accesses
  | .cast _ _ operand => operand.accesses
  | .int .. | .float .. | .bool .. => []
  | .access n path => [⟨n, path⟩]

/-- The names in the value that a variable is declared with. -/
def initAccesses : Option (Expr Note) → List Access
  | none => []
  | some e => e.accesses

mutual

/-- The names in a statement; that of an assignment comes after those in the assigned value. -/
def Stmt.accesses : Stmt Note → List Access
  | .block _ body => Stmt.accessesAll body
  | .declare _ _ _ init => initAccesses init
  | .assign _ m target _ value => value.accesses ++ [⟨m, target⟩]
  | .when _ test body => test.accesses ++ Stmt.accesses body
  | .branch _ test yes no => test.accesses ++ (Stmt.accesses yes ++ Stmt.accesses no)

/-- The names in some statements. -/
def Stmt.accessesAll : List (Stmt Note) → List Access
  | [] => []
  | s :: ss => Stmt.accesses s ++ Stmt.accessesAll ss

end

/-- The names in the value functions of the kernels, and behind them those in the rule. -/
def Shader.accesses (ks : KernelSet) (p : Program Note) : List Access :=
  (ks.kernels.flatMap fun k => k.value.accesses) ++ Stmt.accessesAll p.body

/-! ## What they stand for

A name with a type is traced back to the binding that it was found by, and from there to one of four
things.  A variable may hide a cell, and then it is the variable that the name stands for.
-/

/-- Scopes of checked rules: their read-only names are those that every rule sees, and their
variables hold scalars. -/
structure Scope.Ruled (l : Layout) (ks : KernelSet) (s : Scope) : Prop where
  readOnly : (rootScope l ks).Over s
  scalar : ∀ b ∈ s, b.assignable = true → b.type.isScalar = true

/-- A name with its type in such a scope. -/
structure Access.Placed (l : Layout) (ks : KernelSet) (a : Access) : Prop where
  ruled : a.note.scope.Ruled l ks
  typed : a.path.HasType a.note.scope a.note.type

/-- What a name stands for: a variable, a count, a whole cell, or a field of one. -/
inductive Access.Stands (l : Layout) (ks : KernelSet) (a : Access) : Prop where
  | var {b : Binding} {slot : Slot} (hfind : a.note.scope.find? a.path.root = some (b, slot))
      (hassign : b.assignable = true) (hrest : a.path.rest = []) (htype : a.note.type.isScalar = true)
  | count {b : Binding} {slot : Slot} (hfind : a.note.scope.find? a.path.root = some (b, slot))
      (hassign : b.assignable = false) (hrest : a.path.rest = [])
      (htype : a.note.type.isScalar = true) (hkernel : (ks.find? a.path.root).isSome = true)
  | whole {b : Binding} {slot : Slot} (hfind : a.note.scope.find? a.path.root = some (b, slot))
      (hassign : b.assignable = false) (hrest : a.path.rest = [])
      (htype : a.note.type = l.cellType) (hroot : a.path.root = cellName ∨ a.path.root = prevName)
  | field {b : Binding} {slot : Slot} {name : String}
      (hfind : a.note.scope.find? a.path.root = some (b, slot))
      (hassign : b.assignable = false) (hrest : a.path.rest = [name])
      (htype : a.note.type.isScalar = true)
      (hroot : a.path.root = cellName ∨ a.path.root = prevName)

section

variable {l : Layout} {ks : KernelSet} {s : Scope} {a : Access}

lemma Ty.kind_ne_struct_of_isScalar {t : Ty} (h : t.isScalar = true) : t.kind ≠ .struct := by
  cases t <;> simp [Ty.isScalar, Ty.kind] at h ⊢

/-- Behind a scalar there are no dots. -/
lemma Ty.follow?_of_isScalar {t u : Ty} (h : t.isScalar = true) {names : List String}
    (hfollow : t.follow? names = some u) : names = [] ∧ u = t := by
  cases names with
  | nil => exact ⟨rfl, by simpa [Ty.follow?] using hfollow.symm⟩
  | cons name more => cases t <;> simp [Ty.isScalar, Ty.follow?, Ty.prop?, Ty.props] at h hfollow

/-- The scope that a rule starts in is one of a checked rule. -/
lemma Scope.ruled_root (l : Layout) (ks : KernelSet) : (rootScope l ks).Ruled l ks where
  readOnly _ hb _ := hb
  scalar b hb hassign := by
    rw [(mem_rootScope hb).1] at hassign
    cases hassign

/-- So is the scope of a value function. -/
lemma Scope.ruled_cell (l : Layout) (ks : KernelSet) :
    (Scope.builtin [] cellName l.cellType).Ruled l ks where
  readOnly b hb _ := by
    rw [rootScope_eq]
    simp_all [Scope.builtin]
  scalar b hb hassign := by
    rw [Scope.builtin, List.mem_singleton] at hb
    rw [hb] at hassign
    cases hassign

/-- Behind a statement the scope is such a scope again: a variable is declared with a scalar type. -/
lemma Scope.Ruled.after (hs : s.Ruled l ks) {start : Nat} {stmt : Stmt Note}
    (hstmt : stmt.WellTyped s start) : (stmt.after s).Ruled l ks where
  readOnly := hs.readOnly.after stmt
  scalar := by
    cases stmt with
    | declare n type name init =>
        obtain ⟨-, htype, -⟩ := hstmt
        intro b hb hassign
        rcases List.mem_cons.mp hb with rfl | hb
        · exact TypeName.isScalar_of_type? htype
        · exact hs.scalar b hb hassign
    | block | assign | when | branch => exact hs.scalar

/-- **Nothing else has a name**: a typed name stands for a variable, a count, a whole cell or a field
of one. -/
theorem Access.Placed.stands (h : a.Placed l ks) : a.Stands l ks := by
  obtain ⟨hruled, b, slot, hfind, hfollow⟩ := h
  obtain ⟨hb, hname⟩ := mem_of_find? hfind
  cases hassign : b.assignable with
  | true =>
      obtain ⟨hrest, htype⟩ := Ty.follow?_of_isScalar (hruled.scalar b hb hassign) hfollow
      exact .var hfind hassign hrest (htype ▸ hruled.scalar b hb hassign)
  | false =>
      rcases (mem_rootScope (hruled.readOnly b hb hassign)).2 with ⟨hcell, htype⟩ | ⟨k, hk, hkname, htype⟩
      · rw [hname] at hcell
        rw [htype] at hfollow
        rcases Layout.follow?_cellType hfollow with ⟨hrest, htype⟩ | ⟨name, f, hrest, -, htype⟩
        · exact .whole hfind hassign hrest htype hcell
        · exact .field hfind hassign hrest (htype ▸ f.isScalar_type) hcell
      · rw [htype] at hfollow
        obtain ⟨hrest, htype⟩ := Ty.follow?_of_isScalar k.result.isScalar_type hfollow
        refine .count hfind hassign hrest (htype ▸ k.result.isScalar_type) ?_
        rw [KernelSet.find?, List.find?_isSome]
        exact ⟨k, hk, by simp [← hkname, hname]⟩

/-- A cell used as a whole: `cell` or `prev` alone, where no variable hides it. -/
def Access.WholeCell (a : Access) : Prop :=
  a.path.rest = [] ∧ (a.path.root = cellName ∨ a.path.root = prevName) ∧
    ∃ b slot, a.note.scope.find? a.path.root = some (b, slot) ∧ b.assignable = false

/-- **The names with properties are the whole cells.** -/
theorem Access.Placed.isStruct_iff (hks : ks.Compiled l.cellType) (h : a.Placed l ks) :
    a.isStruct = true ↔ a.WholeCell := by
  rw [isStruct, decide_eq_true_eq]
  cases h.stands with
  | @var b slot hfind hassign hrest htype =>
      refine iff_of_false (Ty.kind_ne_struct_of_isScalar htype) ?_
      rintro ⟨-, -, b', slot', hfind', hassign'⟩
      rw [hfind, Option.some.injEq, Prod.mk.injEq] at hfind'
      rw [← hfind'.1, hassign] at hassign'
      cases hassign'
  | count hfind hassign hrest htype hkernel =>
      refine iff_of_false (Ty.kind_ne_struct_of_isScalar htype) ?_
      rintro ⟨-, hroot, -⟩
      obtain ⟨k, hk, hname⟩ := List.find?_isSome.mp hkernel
      have hchecked := hks.checked k hk
      rw [← of_decide_eq_true hname] at hroot
      exact absurd hroot (by simp [hchecked.name_ne_cell, hchecked.name_ne_prev])
  | whole hfind hassign hrest htype hroot =>
      exact iff_of_true (by rw [htype]; rfl) ⟨hrest, hroot, _, _, hfind, hassign⟩
  | field hfind hassign hrest htype hroot =>
      refine iff_of_false (Ty.kind_ne_struct_of_isScalar htype) ?_
      rintro ⟨hrest', -⟩
      rw [hrest] at hrest'
      cases hrest'

/-! ## Checked rules

The scopes of a rule are those of its declarations, and each of them is again of the sort that the
cases above were made for.
-/

/-- The names in a well-typed expression are typed. -/
lemma Expr.placed_accesses (hs : s.Ruled l ks) :
    ∀ {e : Expr Note}, e.WellTyped s → ∀ a ∈ e.accesses, a.Placed l ks
  | .ternary n test yes no, ⟨_, htest, hyes, hno, _⟩ => by
      rw [Expr.accesses, List.forall_mem_append, List.forall_mem_append]
      exact ⟨placed_accesses hs htest, placed_accesses hs hyes, placed_accesses hs hno⟩
  | .binary n op left right, ⟨_, hleft, hright, _⟩ => by
      rw [Expr.accesses, List.forall_mem_append]
      exact ⟨placed_accesses hs hleft, placed_accesses hs hright⟩
  | .unary n op operand, ⟨_, hoperand, _⟩ => by
      rw [Expr.accesses]
      exact placed_accesses hs hoperand
  | .cast n target operand, ⟨_, hoperand, _⟩ => by
      rw [Expr.accesses]
      exact placed_accesses hs hoperand
  | .int n v text, _ => List.forall_mem_nil _
  | .float n v text, _ => List.forall_mem_nil _
  | .bool n v, _ => List.forall_mem_nil _
  | .access n path, ⟨hn, hpath⟩ => by
      rw [Expr.accesses, List.forall_mem_singleton]
      exact ⟨hn ▸ hs, hn ▸ hpath⟩

mutual

/-- The names in a well-typed statement are typed. -/
theorem Stmt.placed_accesses :
    ∀ {stmt : Stmt Note} {s : Scope} {start : Nat}, s.Ruled l ks → stmt.WellTyped s start →
      ∀ a ∈ stmt.accesses, a.Placed l ks
  | .block n body, s, start, hs, ⟨_, hbody⟩ => by
      rw [Stmt.accesses]
      exact Stmt.placed_accessesAll hs hbody
  | .declare n type name none, s, start, hs, _ => List.forall_mem_nil _
  | .declare n type name (some e), s, start, hs, ⟨_, _, _, _, hinit⟩ => by
      rw [Stmt.accesses]
      exact Expr.placed_accesses hs (hinit e rfl).1
  | .assign n m target op value, s, start, hs, ⟨_, hm, htype, _, hvalue, _⟩ => by
      rw [Stmt.accesses, List.forall_mem_append, List.forall_mem_singleton]
      exact ⟨Expr.placed_accesses hs hvalue, hm ▸ hs, hm ▸ htype⟩
  | .when n test body, s, start, hs, ⟨_, htest, _, hbody⟩ => by
      rw [Stmt.accesses, List.forall_mem_append]
      exact ⟨Expr.placed_accesses hs htest, Stmt.placed_accesses hs hbody⟩
  | .branch n test yes no, s, start, hs, ⟨_, htest, _, hyes, hno⟩ => by
      rw [Stmt.accesses, List.forall_mem_append, List.forall_mem_append]
      exact ⟨Expr.placed_accesses hs htest, Stmt.placed_accesses hs hyes,
        Stmt.placed_accesses hs hno⟩

/-- The names in well-typed statements are typed. -/
theorem Stmt.placed_accessesAll :
    ∀ {ss : List (Stmt Note)} {s : Scope} {start : Nat}, s.Ruled l ks →
      Stmt.AllWellTyped s start ss → ∀ a ∈ Stmt.accessesAll ss, a.Placed l ks
  | [], s, start, _, _ => List.forall_mem_nil _
  | stmt :: ss, s, start, hs, ⟨hstmt, hmore⟩ => by
      rw [Stmt.accessesAll, List.forall_mem_append]
      exact ⟨Stmt.placed_accesses hs hstmt, Stmt.placed_accessesAll (hs.after hstmt) hmore⟩

end

end

/-! ## Code

These are the rules by which the relation is put together.  There is one for a name, one for
sequencing, and one for what cannot fail any more.
-/

/-- The error of a whole cell where a value is wanted. -/
def Access.noCode (a : Access) : InternalError := ⟨a.note.pos, .structValue a.path⟩

/-- The generation of code meets some names, and ends at the first one of a whole cell. -/
def Generation.Translates {β : Type} (names : List Access) (x : Generation β) : Prop :=
  match names.find? Access.isStruct with
  | none => ∃ b, x = .ok b
  | some a => x = .error a.noCode

namespace Generation.Translates

variable {β γ : Type} {names others : List Access} {x : Generation β}

lemma of_ok {b : β} (h : x = .ok b) : Translates [] x := ⟨b, h⟩

/-- The name of a scalar is no reason for an error. -/
lemma of_scalar {a : Access} (ha : a.note.type.isScalar = true) (h : ∃ b, x = .ok b) :
    Translates [a] x := by
  have hstruct := Ty.kind_ne_struct_of_isScalar ha
  rw [Translates, List.find?_cons_of_neg (by simpa [Access.isStruct] using hstruct)]
  exact h

/-- One piece of code after another. -/
lemma bind (hx : Translates names x) {f : β → Generation γ} (hf : ∀ b, Translates others (f b)) :
    Translates (names ++ others) (x >>= f) := by
  rw [Translates] at hx ⊢
  rw [List.find?_append]
  cases hfind : names.find? Access.isStruct with
  | none =>
      rw [hfind] at hx
      obtain ⟨b, rfl⟩ := hx
      exact hf b
  | some a =>
      rw [hfind] at hx
      rw [hx]
      rfl

/-- What is made of a piece of code needs no names of its own. -/
lemma map (hx : Translates names x) {f : β → Generation γ} (hf : ∀ b, ∃ c, f b = .ok c) :
    Translates names (x >>= f) := by
  rw [← List.append_nil names]
  exact hx.bind hf

/-- No other name can be the reason of an error. -/
lemma eq_error (hx : Translates names x) {e : InternalError} (h : x = .error e) :
    ∃ a ∈ names, a.isStruct = true ∧ e = a.noCode := by
  rw [Translates] at hx
  cases hfind : names.find? Access.isStruct with
  | none =>
      rw [hfind] at hx
      obtain ⟨b, hb⟩ := hx
      rw [hb] at h
      cases h
  | some a =>
      rw [hfind] at hx
      refine ⟨a, List.mem_of_find?_eq_some hfind, List.find?_some hfind, ?_⟩
      exact Except.error.inj (h.symm.trans hx)

/-- The name of a whole cell is the reason of an error. -/
lemma exists_error_iff (hx : Translates names x) :
    (∃ e, x = .error e) ↔ ∃ a ∈ names, a.isStruct = true := by
  constructor
  · rintro ⟨e, he⟩
    obtain ⟨a, ha, hstruct, -⟩ := hx.eq_error he
    exact ⟨a, ha, hstruct⟩
  · rintro ⟨a, ha, hstruct⟩
    rw [Translates] at hx
    cases hfind : names.find? Access.isStruct with
    | none => exact absurd hstruct (List.find?_eq_none.mp hfind a ha)
    | some a =>
        rw [hfind] at hx
        exact ⟨a.noCode, hx⟩

end Generation.Translates

section

variable {l : Layout} {ks : KernelSet} {s : Scope}

/-- A name has code unless it is that of a whole cell. -/
lemma Path.translates_toTerm {n : Note} {path : Path} (h : Access.Placed l ks ⟨n, path⟩) :
    Generation.Translates [⟨n, path⟩] (path.toTerm ks n) := by
  cases h.stands with
  | whole hfind hassign hrest htype hroot =>
      have hstruct : n.type.kind = .struct := congrArg Ty.kind htype
      rw [Generation.Translates, List.find?_cons_of_pos (by simpa [Access.isStruct] using hstruct),
        Path.toTerm, if_pos hstruct]
      rfl
  | var hfind hassign hrest htype =>
      refine .of_scalar htype ⟨.name (userVar path.root), ?_⟩
      rw [Path.toTerm, if_neg (Ty.kind_ne_struct_of_isScalar htype)]
      simp_all
  | count hfind hassign hrest htype hkernel =>
      refine .of_scalar htype ⟨.name (countLocal path.root), ?_⟩
      rw [Path.toTerm, if_neg (Ty.kind_ne_struct_of_isScalar htype)]
      simp_all
  | @field _ _ name hfind hassign hrest htype hroot =>
      refine .of_scalar htype ?_
      rw [Path.toTerm, if_neg (Ty.kind_ne_struct_of_isScalar htype)]
      rcases hroot with hcell | hprev
      · exact ⟨.call (getterName name) [cellTerm], by simp_all⟩
      · exact ⟨.name (prevLocal name), by simp_all [show prevName ≠ cellName by decide]⟩

/-- **An expression has code up to the first name of a whole cell.** -/
theorem Expr.translates_toTerm (hs : s.Ruled l ks) :
    ∀ {e : Expr Note}, e.WellTyped s → Generation.Translates e.accesses (e.toTerm ks)
  | .ternary n test yes no, ⟨_, htest, hyes, hno, _⟩ => by
      rw [Expr.accesses, Expr.toTerm]
      refine (translates_toTerm hs htest).bind fun _ => (translates_toTerm hs hyes).bind fun _ => ?_
      exact (translates_toTerm hs hno).map fun _ => ⟨_, rfl⟩
  | .binary n op left right, ⟨_, hleft, hright, _⟩ => by
      rw [Expr.accesses, Expr.toTerm]
      refine (translates_toTerm hs hleft).bind fun _ => ?_
      exact (translates_toTerm hs hright).map fun _ => ⟨_, rfl⟩
  | .unary n op operand, ⟨_, hoperand, _⟩ => by
      rw [Expr.accesses, Expr.toTerm]
      exact (translates_toTerm hs hoperand).map fun _ => ⟨_, rfl⟩
  | .cast n target operand, ⟨_, hoperand, _⟩ => by
      rw [Expr.accesses, Expr.toTerm]
      exact (translates_toTerm hs hoperand).map fun _ => ⟨_, rfl⟩
  | .int n v text, _ => .of_ok rfl
  | .float n v text, _ => .of_ok rfl
  | .bool n v, _ => .of_ok rfl
  | .access n path, ⟨hn, hpath⟩ => by
      rw [Expr.accesses, Expr.toTerm]
      exact Path.translates_toTerm ⟨hn ▸ hs, hn ▸ hpath⟩

/-- The initial value of a variable has code up to the first name of a whole cell. -/
lemma translates_initTerm (hs : s.Ruled l ks) {t u : Ty} {init : Option (Expr Note)}
    (hinit : ∀ e, init = some e → e.WellTyped s ∧ e.type = u) :
    Generation.Translates (initAccesses init) (initTerm ks t init) := by
  cases init with
  | none => exact .of_ok rfl
  | some e => exact Expr.translates_toTerm hs (hinit e rfl).1

/-- What is assigned to is a scalar, and an assignment to it has code. -/
lemma translates_assignCode (hs : s.Ruled l ks) {m : Note} (hm : m.scope = s) {target : Path}
    (htype : target.HasType s m.type) (htarget : target.Assignable s) (pos : Position) (op : AssignOp)
    (value : Term) : Generation.Translates [⟨m, target⟩] (assignCode pos target op value) := by
  have hplaced : Access.Placed l ks ⟨m, target⟩ := ⟨hm ▸ hs, hm ▸ htype⟩
  have hscalar : m.type.isScalar = true := by
    cases hplaced.stands with
    | whole hfind hassign hrest htype hroot =>
        rw [Path.Assignable, show target.rest = [] from hrest] at htarget
        obtain ⟨b, slot, hfind', hassign'⟩ := htarget
        simp_all
    | var hfind hassign hrest htype => exact htype
    | count hfind hassign hrest htype hkernel => exact htype
    | field hfind hassign hrest htype hroot => exact htype
  refine .of_scalar hscalar ?_
  obtain ⟨root, rest⟩ := target
  rcases rest with _ | ⟨field, _ | ⟨next, rest⟩⟩
  · exact ⟨_, rfl⟩
  · exact ⟨_, if_pos htarget.1⟩
  · exact htarget.elim

mutual

/-- **A statement has code up to the first name of a whole cell.** -/
theorem Stmt.translates_toCode :
    ∀ {stmt : Stmt Note} {s : Scope} {start : Nat}, s.Ruled l ks → stmt.WellTyped s start →
      Generation.Translates stmt.accesses (stmt.toCode ks)
  | .block n body, s, start, hs, ⟨_, hbody⟩ => by
      rw [Stmt.accesses, Stmt.toCode]
      exact (Stmt.translates_toCodes hs hbody).map fun _ => ⟨_, rfl⟩
  | .declare n type name init, s, start, hs, ⟨_, _, _, _, hinit⟩ => by
      rw [Stmt.accesses, Stmt.toCode]
      exact (translates_initTerm hs hinit).map fun _ => ⟨_, rfl⟩
  | .assign n m target op value, s, start, hs, ⟨_, hm, htype, htarget, hvalue, _⟩ => by
      rw [Stmt.accesses, Stmt.toCode]
      refine (Expr.translates_toTerm hs hvalue).bind fun value => ?_
      exact translates_assignCode hs hm htype htarget n.pos op value
  | .when n test body, s, start, hs, ⟨_, htest, _, hbody⟩ => by
      rw [Stmt.accesses, Stmt.toCode]
      refine (Expr.translates_toTerm hs htest).bind fun _ => ?_
      exact (Stmt.translates_toCode hs hbody).map fun _ => ⟨_, rfl⟩
  | .branch n test yes no, s, start, hs, ⟨_, htest, _, hyes, hno⟩ => by
      rw [Stmt.accesses, Stmt.toCode]
      refine (Expr.translates_toTerm hs htest).bind fun _ => ?_
      refine (Stmt.translates_toCode hs hyes).bind fun _ => ?_
      exact (Stmt.translates_toCode hs hno).map fun _ => ⟨_, rfl⟩

/-- Statements in turn have code up to the first name of a whole cell. -/
theorem Stmt.translates_toCodes :
    ∀ {ss : List (Stmt Note)} {s : Scope} {start : Nat}, s.Ruled l ks →
      Stmt.AllWellTyped s start ss → Generation.Translates (Stmt.accessesAll ss) (Stmt.toCodes ks ss)
  | [], s, start, _, _ => .of_ok rfl
  | stmt :: ss, s, start, hs, ⟨hstmt, hmore⟩ => by
      rw [Stmt.accessesAll, Stmt.toCodes]
      refine (Stmt.translates_toCode hs hstmt).bind fun _ => ?_
      exact (Stmt.translates_toCodes (hs.after hstmt) hmore).map fun _ => ⟨_, rfl⟩

end

/-- Value functions have code up to the first name of a whole cell. -/
lemma Shader.translates_countFunctions :
    ∀ {kernels : List Kernel}, (∀ k ∈ kernels, k.Checked l.cellType) →
      Generation.Translates (kernels.flatMap fun k => k.value.accesses) (countFunctions ks kernels)
  | [], _ => .of_ok rfl
  | k :: kernels, h => by
      rw [List.forall_mem_cons] at h
      rw [List.flatMap_cons, countFunctions]
      refine (Expr.translates_toTerm (Scope.ruled_cell l ks) h.1.typed).bind fun _ => ?_
      exact (translates_countFunctions h.2).map fun _ => ⟨_, rfl⟩

/-! ## Shaders

The value functions of the kernels are translated before the rule.  They see one cell, and can fail
for the same reason.
-/

/-- **A checked rule has a shader unless it uses a whole cell.** -/
theorem Shader.translates_generate (hks : ks.Compiled l.cellType) {p : Program Note}
    (hp : Stmt.AllWellTyped (rootScope l ks) (rootScope l ks).length p.body) :
    Generation.Translates (Shader.accesses ks p) (generate l ks p) := by
  rw [Shader.accesses, generate]
  refine (translates_countFunctions hks.checked).bind fun _ => ?_
  exact (Stmt.translates_toCodes (Scope.ruled_root l ks) hp).map fun _ => ⟨_, rfl⟩

/-- All names of a checked rule and its kernels are typed. -/
lemma Shader.placed_accesses (hks : ks.Compiled l.cellType) {p : Program Note}
    (hp : Stmt.AllWellTyped (rootScope l ks) (rootScope l ks).length p.body) :
    ∀ a ∈ Shader.accesses ks p, a.Placed l ks := by
  rw [Shader.accesses, List.forall_mem_append]
  refine ⟨?_, Stmt.placed_accessesAll (Scope.ruled_root l ks) hp⟩
  intro a ha
  obtain ⟨k, hk, ha⟩ := List.mem_flatMap.mp ha
  exact Expr.placed_accesses (Scope.ruled_cell l ks) (hks.checked k hk).typed a ha

end

/-- **Whole cells are all that has no code.**  The generation of a shader for a checked rule fails
exactly if some name in the rule or in a value function has a type with properties.  Such a name is
`cell` or `prev` alone, and it is the reason of the error: there is none of another kind. -/
theorem Shader.generate_fails_iff {l : Layout} {kernelSpecs : List KernelSpec} {ks : KernelSet}
    {parsed : Program Position} {p : Program Note}
    (hkernels : KernelSet.compile kernelSpecs l.cellType = .ok ks)
    (hchecked : parsed.check (rootScope l ks) = .ok p) :
    ((∃ e, generate l ks p = .error e) ↔
      ∃ a ∈ Shader.accesses ks p, a.note.type.kind = .struct) ∧
    (∀ e, generate l ks p = .error e → ∃ a ∈ Shader.accesses ks p,
      a.note.type.kind = .struct ∧ e = ⟨a.note.pos, .structValue a.path⟩) ∧
    ∀ a ∈ Shader.accesses ks p, a.note.type.kind = .struct ↔ a.WholeCell := by
  have hks := KernelSet.compiled_of_compile hkernels
  obtain ⟨htyped, -⟩ := Program.wellTyped_of_check hchecked
  have htranslates := Shader.translates_generate hks htyped
  have hstruct : ∀ a : Access, a.isStruct = true ↔ a.note.type.kind = .struct :=
    fun a => decide_eq_true_iff
  simp only [← hstruct]
  refine ⟨htranslates.exists_error_iff, fun e he => htranslates.eq_error he, ?_⟩
  exact fun a ha => (Shader.placed_accesses hks htyped a ha).isStruct_iff hks

/-- A state of one flag. -/
def Layout.aliveOnly : Layout := ⟨[⟨"alive", .flag, [⟨0, 0, 0⟩]⟩], 1⟩

set_option maxRecDepth 100000 in
/-- A comparison of two whole cells is well-typed, and has no code. -/
theorem Shader.generate_fails_comparison : ∃ ks parsed p,
    Layout.pack [⟨"alive", .flag, 0⟩] = .ok .aliveOnly ∧
      KernelSet.compile [] Layout.aliveOnly.cellType = .ok ks ∧
      Program.parse "bool same = cell == prev;" = .ok parsed ∧
      parsed.check (rootScope .aliveOnly ks) = .ok p ∧
      ∃ pos path, generate .aliveOnly ks p = .error ⟨pos, .structValue path⟩ := by
  have hks : KernelSet.compile [] Layout.aliveOnly.cellType = .ok (.ofKernels []) := rfl
  obtain ⟨parsed, hparsed, hrest⟩ : ∃ parsed, Program.parse "bool same = cell == prev;" = .ok parsed ∧
      ((parsed.check (rootScope .aliveOnly (.ofKernels []))).toOption.map fun p =>
        (Shader.accesses (.ofKernels []) p).map fun a => (a.path, a.note.type.kind))
          = some [(⟨"cell", []⟩, .struct), (⟨"prev", []⟩, .struct)] :=
    exists_ok_of_toOption (by decide +kernel)
  obtain ⟨p, hp, hnames⟩ := exists_ok_of_toOption hrest
  obtain ⟨a, ha, hkind⟩ : ∃ a ∈ Shader.accesses (.ofKernels []) p, a.note.type.kind = .struct := by
    obtain ⟨a, more, hcons, hfirst, -⟩ := List.map_eq_cons_iff.mp hnames
    exact ⟨a, hcons ▸ List.mem_cons_self, congrArg Prod.snd hfirst⟩
  obtain ⟨hfails, hcause, -⟩ := Shader.generate_fails_iff hks hp
  obtain ⟨e, he⟩ := hfails.mpr ⟨a, ha, hkind⟩
  obtain ⟨a', -, -, rfl⟩ := hcause e he
  exact ⟨_, _, p, rfl, hks, hparsed, hp, _, _, he⟩

end Cellular
