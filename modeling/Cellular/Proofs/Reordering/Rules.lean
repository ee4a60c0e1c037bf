import Cellular.Proofs.Reordering.Layouts
import Cellular.Shader.Generate

/-!
# Rules over layouts of the same fields

Whether a rule is well-typed, and what code it has, does not depend on the places of state fields or
on the order in which the names of a rule are bound.  It does not depend on places in a source text
either.

* `Ty.Alike` relates two types that a rule can meet, `Scope.Alike` two scopes with the same names.
* `Expr.exists_check` and `Stmt.exists_check`: what passes the check in the one scope passes it in
  the other, with the same code.

The type of a cell holds the places of its fields, so the types of whole cells differ between the
two layouts, while all others are the same.  `Ty.Alike` keeps the two sorts apart: no operation
makes a cell from something else, and from a cell one gets to its fields only, which are alike.  The
check is followed case by case.  It gives a tree whose notes have alike types, and the code that is
generated from it is equal, since code mentions names, never places.
-/

namespace Cellular

variable {l m : Layout}

/-! ## Types

Operators look at the kind of a type, except that two structures can be compared.  They are compared
by their parts then, and on both sides a cell equals itself.
-/

/-- Whole cells can only be compared. -/
lemma BinaryOp.Typed.of_struct {op : BinaryOp} {t v : Ty} (h : op.Typed t v)
    (ht : t.kind = .struct) : (op = .eq ∨ op = .ne) ∧ v = .bool := by
  cases h with
  | eq => exact ⟨.inl rfl, rfl⟩
  | ne => exact ⟨.inr rfl, rfl⟩
  | order _ hnumeric => cases t <;> simp_all [Ty.kind, Ty.isNumeric]
  | arithmetic _ hnumeric => cases t <;> simp_all [Ty.kind, Ty.isNumeric]
  | or | and | mod => cases ht

/-- Operators make no cells. -/
lemma BinaryOp.Typed.kind_ne {op : BinaryOp} {t v : Ty} (h : op.Typed t v)
    (ht : t.kind ≠ .struct) : v.kind ≠ .struct := by
  cases h with
  | arithmetic _ _ => exact ht
  | or | and | eq | ne | order | mod => decide

/-- Two types that stand for the same: both are that of a cell, or they are one type of no cell. -/
inductive Ty.Alike (l m : Layout) : Ty → Ty → Prop where
  | cell : Alike l m l.cellType m.cellType
  | same {t : Ty} (h : t.kind ≠ .struct) : Alike l m t t

namespace Ty.Alike

variable {t t' u u' v : Ty}

lemma kind_eq (h : Alike l m t t') : t'.kind = t.kind := by
  cases h <;> rfl

lemma isScalar_eq (h : Alike l m t t') : t'.isScalar = t.isScalar := by
  cases h <;> rfl

lemma isNumeric_eq (h : Alike l m t t') : t'.isNumeric = t.isNumeric := by
  cases h <;> rfl

lemma appliesTo_eq (h : Alike l m t t') {op : UnaryOp} : op.appliesTo t' = op.appliesTo t := by
  cases op with
  | not => simp only [UnaryOp.appliesTo, h.kind_eq]
  | neg => exact h.isNumeric_eq
  | unknown => rfl

/-- Away from cells both types are the same. -/
lemma eq_of_kind (h : Alike l m t t') (ht : t.kind ≠ .struct) : t' = t := by
  cases h with
  | cell => exact absurd rfl ht
  | same => rfl

lemma equal_eq (ht : Alike l m t t') (hu : Alike l m u u') : t'.equal u' = t.equal u := by
  have hne : ∀ {l : Layout} {t : Ty}, t.kind ≠ .struct → l.cellType ≠ t := by
    rintro l t ht rfl
    exact ht rfl
  rw [Bool.eq_iff_iff, Ty.equal_iff, Ty.equal_iff]
  cases ht with
  | cell =>
      cases hu with
      | cell => simp
      | same hu => simp [hne hu]
  | same ht =>
      cases hu with
      | cell => simp [(hne ht).symm]
      | same hu => rfl

/-- An operator has alike results on alike operands. -/
lemma result? (ht : Alike l m t t') (hu : Alike l m u u') {op : BinaryOp}
    (h : op.result? t u = some v) : ∃ v', op.result? t' u' = some v' ∧ Alike l m v v' := by
  obtain ⟨rfl, htyped⟩ := BinaryOp.typed_of_result? h
  by_cases hkind : u.kind = .struct
  · obtain ⟨hop, rfl⟩ := htyped.of_struct hkind
    refine ⟨.bool, ?_, .same (by decide)⟩
    have hequal : t'.equal u' = true := by rw [ht.equal_eq hu, u.equal_self]
    rcases hop with rfl | rfl <;> simp [BinaryOp.result?, hequal]
  · rw [ht.eq_of_kind hkind, hu.eq_of_kind hkind]
    exact ⟨v, h, .same (htyped.kind_ne hkind)⟩

end Ty.Alike

/-- What is no cell has no properties. -/
lemma eq_of_walkProps {pos : Position} {names : List String} {walked : String} {t u : Ty}
    (ht : t.kind ≠ .struct) (h : walkProps pos walked t names = .ok u) : names = [] ∧ u = t := by
  cases names with
  | nil =>
      cases h
      exact ⟨rfl, rfl⟩
  | cons name more =>
      rw [walkProps, if_pos ht] at h
      cases h

lemma TypeName.kind_ne_of_type? {name : TypeName} {t : Ty} (h : name.type? = some t) :
    t.kind ≠ .struct := by
  cases name <;> cases h <;> decide

lemma Field.kind_type_ne (f : Field) : f.type.kind ≠ .struct := by
  rw [Field.type]
  split_ifs <;> decide

/-- A dotted name leads to alike types. -/
lemma Ty.Alike.walkProps (hlm : l.Alike m) {pos pos' : Position} {names : List String}
    {walked walked' : String} {t t' u : Ty} (ht : Ty.Alike l m t t')
    (h : walkProps pos walked t names = .ok u) :
    ∃ u', Cellular.walkProps pos' walked' t' names = .ok u' ∧ Ty.Alike l m u u' := by
  cases ht with
  | same hne =>
      obtain ⟨rfl, rfl⟩ := eq_of_walkProps hne h
      exact ⟨u, rfl, .same hne⟩
  | cell =>
      cases names with
      | nil =>
          cases h
          exact ⟨m.cellType, rfl, .cell⟩
      | cons name more =>
          have hstruct : ∀ l : Layout, ¬ l.cellType.kind ≠ .struct := fun l h => h rfl
          rw [Cellular.walkProps, if_neg (hstruct l), Layout.prop?_cellType] at h
          rw [Cellular.walkProps, if_neg (hstruct m), Layout.prop?_cellType]
          rcases hlm name with ⟨hl, -⟩ | ⟨f, g, hf, hg, halike⟩
          · rw [hl] at h
            cases h
          · rw [hf] at h
            obtain ⟨rfl, rfl⟩ := eq_of_walkProps f.kind_type_ne h
            rw [hg, Option.map_some, halike.type_eq]
            exact ⟨f.type, rfl, .same f.kind_type_ne⟩

/-! ## Scopes

Read-only names may have other slots.  No code and no value depends on these.
-/

/-- Two scopes that bind the same names, to alike types.  A variable has the same slot in both. -/
structure Scope.Alike (l m : Layout) (s s' : Scope) : Prop where
  length : s'.length = s.length
  find? : ∀ name, (s.find? name = none ∧ s'.find? name = none) ∨
    ∃ b slot b' slot', s.find? name = some (b, slot) ∧ s'.find? name = some (b', slot') ∧
      b'.assignable = b.assignable ∧ (b.assignable = true → slot' = slot) ∧
      Ty.Alike l m b.type b'.type
  declaredSince : ∀ depth name, s'.declaredSince depth name = s.declaredSince depth name

namespace Scope.Alike

variable {s s' : Scope}

/-- The same declaration keeps scopes alike. -/
lemma declare (h : Alike l m s s') (name : String) {t : Ty} (ht : t.kind ≠ .struct) :
    Alike l m (s.declare name t) (s'.declare name t) where
  length := by simp [Scope.declare, h.length]
  find? := by
    intro other
    rw [Scope.declare, Scope.declare, Scope.find?, Scope.find?]
    split_ifs with hname
    · exact .inr ⟨_, _, _, _, rfl, rfl, rfl, fun _ => h.length, .same ht⟩
    · exact h.find? other
  declaredSince := by
    intro depth other
    have hdeclare : ∀ s : Scope, (s.declare name t).declaredSince depth other
        = (decide (depth ≤ s.length ∧ name = other) || s.declaredSince depth other) := by
      intro s
      rw [Scope.declare, Scope.declaredSince, Scope.declaredSince, List.length_cons]
      by_cases hdepth : depth ≤ s.length
      · rw [show s.length + 1 - depth = (s.length - depth) + 1 by omega, List.take_succ_cons]
        simp [hdepth]
      · rw [show s.length + 1 - depth = 0 by omega, show s.length - depth = 0 by omega]
        simp [hdepth]
    rw [hdeclare, hdeclare, h.length, h.declaredSince]

end Scope.Alike

/-! ## Names

A dotted name is found in both scopes and followed through alike types.
-/

namespace Path

variable {s s' : Scope} {path : Path}

/-- A dotted name has alike types in alike scopes. -/
lemma exists_check (hlm : l.Alike m) (hs : s.Alike l m s') {pos : Position} {t : Ty}
    (h : path.check pos s = .ok t) (pos' : Position) :
    ∃ t', path.check pos' s' = .ok t' ∧ Ty.Alike l m t t' := by
  rw [check] at h ⊢
  rcases hs.find? path.root with ⟨hnone, -⟩ | ⟨b, slot, b', slot', hb, hb', -, -, htype⟩
  · rw [hnone] at h
    cases h
  · rw [hb] at h
    rw [hb']
    exact htype.walkProps hlm h

/-- The same names may be assigned to. -/
lemma checkTarget_alike (hs : s.Alike l m s') {pos : Position}
    (h : path.checkTarget pos s = .ok ()) (pos' : Position) :
    path.checkTarget pos' s' = .ok () := by
  obtain ⟨root, rest⟩ := path
  rw [checkTarget] at h ⊢
  rcases hs.find? root with ⟨hnone, hnone'⟩ | ⟨b, slot, b', slot', hb, hb', hassign, -⟩
  · rw [hnone] at h
    rw [hnone']
    rcases rest with _ | ⟨field, _ | ⟨second, more⟩⟩
    · cases h
    · rwa [ite_else_illTyped_eq_ok] at h ⊢
    · cases h
  · rw [hb] at h
    rw [hb']
    simp only [hassign] at h ⊢
    rcases rest with _ | ⟨field, _ | ⟨second, more⟩⟩
    · rwa [ite_else_illTyped_eq_ok] at h ⊢
    · rwa [ite_else_illTyped_eq_ok] at h ⊢
    · cases h

end Path

/-! ## Expressions

Two results are compared by their type and by their code, which is all that the statements around
them ask for.
-/

/-- Two checked expressions stand for the same: their types do, and where the one has code the other
has the same. -/
structure Expr.Alike (l m : Layout) (ks ks' : KernelSet) (e e' : Expr Note) : Prop where
  type : Ty.Alike l m e.type e'.type
  term : ∀ t, e.toTerm ks = .ok t → e'.toTerm ks' = .ok t

variable {ks ks' : KernelSet} {s s' : Scope}

/-- Two sets with kernels of the same names. -/
def KernelSet.SameNames (ks ks' : KernelSet) : Prop :=
  ∀ name, (ks'.find? name).isSome = (ks.find? name).isSome

/-- A dotted name has the same code. -/
lemma Path.toTerm_alike (hks : ks.SameNames ks') (hs : s.Alike l m s') {t t' : Ty}
    (ht : Ty.Alike l m t t') {pos pos' : Position} {path : Path} {term : Shader.Term}
    (h : path.toTerm ks ⟨pos, s, t⟩ = .ok term) : path.toTerm ks' ⟨pos', s', t'⟩ = .ok term := by
  obtain ⟨root, rest⟩ := path
  have hstruct : t.kind ≠ .struct := by
    intro hstruct
    rw [toTerm, if_pos hstruct] at h
    cases h
  rw [toTerm, if_neg hstruct] at h
  rw [toTerm, if_neg (ht.kind_eq ▸ hstruct)]
  rcases hs.find? root with ⟨hnone, -⟩ | ⟨b, slot, b', slot', hb, hb', hassign, -⟩
  · rw [hnone] at h
    cases h
  · rw [hb] at h
    rw [hb']
    dsimp only at h ⊢
    rw [hassign, hks root]
    rcases rest with _ | ⟨field, _ | ⟨second, more⟩⟩
    · dsimp only at h ⊢
      split_ifs at h ⊢ <;> exact h
    · dsimp only at h ⊢
      split_ifs at h ⊢ <;> exact h
    · cases h

/-- **An expression that passes the check in one scope passes it in an alike one**, wherever it
stands. -/
theorem Expr.exists_check (hlm : l.Alike m) (hks : ks.SameNames ks') (hs : s.Alike l m s')
    (f : Position → Position) :
    ∀ {e : Expr Position} {e₁ : Expr Note}, (e.map f).check s = .ok e₁ →
      ∃ e₂, e.check s' = .ok e₂ ∧ Expr.Alike l m ks ks' e₁ e₂
  | .ternary pos test yes no, e₁, h => by
      simp only [Expr.map, Expr.check, bind_eq_ok, ite_illTyped_eq_ok, pure_eq_ok] at h
      obtain ⟨test₁, htest, yes₁, hyes, no₁, hno, hbool, hequal, rfl⟩ := h
      obtain ⟨test₂, htest', atest⟩ := exists_check hlm hks hs f htest
      obtain ⟨yes₂, hyes', ayes⟩ := exists_check hlm hks hs f hyes
      obtain ⟨no₂, hno', ano⟩ := exists_check hlm hks hs f hno
      refine ⟨.ternary ⟨pos, s', yes₂.type⟩ test₂ yes₂ no₂, ?_, ayes.type, ?_⟩
      · simp only [Expr.check, htest', hyes', hno', ok_bind, ite_illTyped_eq_ok, pure_eq_ok,
          atest.type.kind_eq, ayes.type.equal_eq ano.type]
        exact ⟨hbool, hequal, trivial⟩
      · intro t ht
        simp only [Expr.toTerm, bind_eq_ok] at ht ⊢
        obtain ⟨u, hu, v, hv, w, hw, ht⟩ := ht
        exact ⟨u, atest.term u hu, v, ayes.term v hv, w, ano.term w hw, ht⟩
  | .binary pos op left right, e₁, h => by
      simp only [Expr.map, Expr.check, bind_eq_ok] at h
      obtain ⟨left₁, hleft, right₁, hright, h⟩ := h
      split at h
      · cases h
      · rename_i t ht
        cases h
        obtain ⟨left₂, hleft', aleft⟩ := exists_check hlm hks hs f hleft
        obtain ⟨right₂, hright', aright⟩ := exists_check hlm hks hs f hright
        obtain ⟨t', ht', htype⟩ := aleft.type.result? aright.type ht
        refine ⟨.binary ⟨pos, s', t'⟩ op left₂ right₂, ?_, htype, ?_⟩
        · simp only [Expr.check, hleft', hright', ok_bind, ht', pure_eq_ok]
        · intro t ht
          simp only [Expr.toTerm, bind_eq_ok] at ht ⊢
          obtain ⟨u, hu, v, hv, ht⟩ := ht
          exact ⟨u, aleft.term u hu, v, aright.term v hv, ht⟩
  | .unary pos op operand, e₁, h => by
      simp only [Expr.map, Expr.check, bind_eq_ok, ite_else_illTyped_eq_ok, pure_eq_ok] at h
      obtain ⟨operand₁, hoperand, hop, rfl⟩ := h
      obtain ⟨operand₂, hoperand', alike⟩ := exists_check hlm hks hs f hoperand
      refine ⟨.unary ⟨pos, s', operand₂.type⟩ op operand₂, ?_, alike.type, ?_⟩
      · simp only [Expr.check, hoperand', ok_bind, ite_else_illTyped_eq_ok, pure_eq_ok]
        exact ⟨alike.type.appliesTo_eq ▸ hop, trivial⟩
      · intro t ht
        simp only [Expr.toTerm, bind_eq_ok] at ht ⊢
        obtain ⟨u, hu, ht⟩ := ht
        exact ⟨u, alike.term u hu, ht⟩
  | .cast pos target operand, e₁, h => by
      simp only [Expr.map, Expr.check, bind_eq_ok, ite_illTyped_eq_ok] at h
      obtain ⟨operand₁, hoperand, hscalar, h⟩ := h
      split at h
      · cases h
      · rename_i t ht
        cases h
        obtain ⟨operand₂, hoperand', alike⟩ := exists_check hlm hks hs f hoperand
        refine ⟨.cast ⟨pos, s', t⟩ target operand₂, ?_, .same (TypeName.kind_ne_of_type? ht), ?_⟩
        · simp only [Expr.check, hoperand', ok_bind, ite_illTyped_eq_ok, alike.type.isScalar_eq, ht,
            pure_eq_ok]
          exact ⟨hscalar, trivial⟩
        · intro t ht
          simp only [Expr.toTerm, bind_eq_ok] at ht ⊢
          obtain ⟨u, hu, ht⟩ := ht
          exact ⟨u, alike.term u hu, ht⟩
  | .int pos v text, e₁, h => by
      cases h
      exact ⟨_, rfl, .same Kind.noConfusion, fun _ ht => ht⟩
  | .float pos v text, e₁, h => by
      cases h
      exact ⟨_, rfl, .same Kind.noConfusion, fun _ ht => ht⟩
  | .bool pos v, e₁, h => by
      cases h
      exact ⟨_, rfl, .same Kind.noConfusion, fun _ ht => ht⟩
  | .access pos path, e₁, h => by
      simp only [Expr.map, Expr.check, bind_eq_ok, pure_eq_ok] at h
      obtain ⟨t, ht, rfl⟩ := h
      obtain ⟨t', ht', htype⟩ := Path.exists_check hlm hs ht pos
      refine ⟨.access ⟨pos, s', t'⟩ path, ?_, htype, ?_⟩
      · simp only [Expr.check, ht', ok_bind, pure_eq_ok]
      · exact fun term hterm => Path.toTerm_alike hks hs htype hterm

/-! ## Statements

A declaration is added to both scopes in the same way, so they stay alike for the statements behind
it.
-/

/-- The initial value of a variable passes its check alike. -/
lemma exists_checkInit (hlm : l.Alike m) (hks : ks.SameNames ks') (hs : s.Alike l m s')
    (f : Position → Position) {pos : Position} {name : String} {t : Ty} (ht : t.kind ≠ .struct)
    {init : Option (Expr Position)} {init₁ : Option (Expr Note)}
    (h : checkInit s pos name t (init.map (Expr.map f)) = .ok init₁) (pos' : Position) :
    ∃ init₂, checkInit s' pos' name t init = .ok init₂ ∧
      ∀ term, initTerm ks t init₁ = .ok term → initTerm ks' t init₂ = .ok term := by
  cases init with
  | none =>
      cases h
      exact ⟨none, rfl, fun _ hterm => hterm⟩
  | some e =>
      simp only [Option.map_some, checkInit, bind_eq_ok, ite_else_illTyped_eq_ok, pure_eq_ok] at h
      obtain ⟨e₁, he, hequal, rfl⟩ := h
      obtain ⟨e₂, he', alike⟩ := Expr.exists_check hlm hks hs f he
      refine ⟨some e₂, ?_, alike.term⟩
      simp only [checkInit, he', ok_bind, ite_else_illTyped_eq_ok, pure_eq_ok,
        alike.type.equal_eq (.same ht), hequal, and_self]

/-- An assignment stores values of alike types. -/
lemma AssignOp.exists_check {pos : Position} {op : AssignOp} {t t' u u' v : Ty}
    (ht : Ty.Alike l m t t') (hu : Ty.Alike l m u u') (h : op.check pos t u = .ok v)
    (pos' : Position) : ∃ v', op.check pos' t' u' = .ok v' ∧ Ty.Alike l m v v' := by
  rw [AssignOp.check] at h ⊢
  cases hop : op.binaryOp? with
  | none =>
      simp only [hop, Except.ok.injEq] at h
      exact ⟨u', rfl, h ▸ hu⟩
  | some b =>
      simp only [hop] at h ⊢
      split at h
      · rename_i w hw
        cases h
        obtain ⟨w', hw', halike⟩ := ht.result? hu hw
        exact ⟨w', by rw [hw'], halike⟩
      · cases h

/-- The place of an assignment is in its errors only. -/
lemma assignCode_pos {pos : Position} {target : Path} {op : AssignOp} {value : Shader.Term}
    {c : Shader.Code} (h : assignCode pos target op value = .ok c) (pos' : Position) :
    assignCode pos' target op value = .ok c := by
  obtain ⟨root, rest⟩ := target
  rw [assignCode] at h ⊢
  rcases rest with _ | ⟨field, _ | ⟨second, more⟩⟩
  · exact h
  · dsimp only at h ⊢
    split_ifs at h ⊢
    exact h
  · cases h

/-- Two checked statements stand for the same: where the one has code the other has the same. -/
def Stmt.Alike (ks ks' : KernelSet) (stmt stmt' : Stmt Note) : Prop :=
  ∀ c, Stmt.toCode ks stmt = .ok c → Stmt.toCode ks' stmt' = .ok c

mutual

/-- **A statement that passes the check in one scope passes it in an alike one**, wherever it
stands. -/
theorem Stmt.exists_check (hlm : l.Alike m) (hks : ks.SameNames ks') (f : Position → Position)
    {start : Nat} :
    ∀ {s s' : Scope} {stmt : Stmt Position} {stmt₁ : Stmt Note} {next : Scope}, s.Alike l m s' →
      Stmt.check s start (stmt.map f) = .ok (stmt₁, next) →
      ∃ stmt₂ next', Stmt.check s' start stmt = .ok (stmt₂, next') ∧ next.Alike l m next' ∧
        Stmt.Alike ks ks' stmt₁ stmt₂
  | s, s', .block pos body, stmt₁, next, hs, h => by
      simp only [Stmt.map, Stmt.check, bind_eq_ok, pure_eq_ok, Prod.mk.injEq] at h
      obtain ⟨body₁, hbody, rfl, rfl⟩ := h
      obtain ⟨body₂, hbody', alike⟩ := Stmt.exists_checkAll hlm hks f hs hbody
      refine ⟨.block ⟨pos, s', .invalid⟩ body₂, s', ?_, hs, ?_⟩
      · rw [Stmt.check, hs.length, hbody']
        rfl
      · intro c hc
        simp only [Stmt.toCode, bind_eq_ok] at hc ⊢
        obtain ⟨cs, hcs, hc⟩ := hc
        exact ⟨cs, alike cs hcs, hc⟩
  | s, s', .declare pos type name init, stmt₁, next, hs, h => by
      rw [Stmt.map, Stmt.check] at h
      rw [Stmt.check]
      split at h
      · cases h
      · rename_i t ht
        simp only [ite_illTyped_eq_ok, bind_eq_ok, pure_eq_ok, Prod.mk.injEq] at h
        obtain ⟨hreserved, hnew, init₁, hinit, rfl, rfl⟩ := h
        have hkind := TypeName.kind_ne_of_type? ht
        obtain ⟨init₂, hinit', alike⟩ := exists_checkInit hlm hks hs f hkind hinit pos
        refine ⟨.declare ⟨pos, s', t⟩ type name init₂, s'.declare name t, ?_,
          hs.declare name hkind, ?_⟩
        · rw [hs.declaredSince, ite_illTyped_eq_ok, ite_illTyped_eq_ok, hinit']
          exact ⟨hreserved, hnew, rfl⟩
        · intro c hc
          simp only [Stmt.toCode, bind_eq_ok] at hc ⊢
          obtain ⟨term, hterm, hc⟩ := hc
          exact ⟨term, alike term hterm, hc⟩
  | s, s', .assign pos targetPos target op value, stmt₁, next, hs, h => by
      simp only [Stmt.map, Stmt.check, bind_eq_ok, ite_else_illTyped_eq_ok, pure_eq_ok,
        Prod.mk.injEq] at h
      obtain ⟨t, ht, value₁, hvalue, ⟨⟩, htarget, stored, hstored, hequal, rfl, rfl⟩ := h
      obtain ⟨t', ht', htype⟩ := Path.exists_check hlm hs ht targetPos
      obtain ⟨value₂, hvalue', alike⟩ := Expr.exists_check hlm hks hs f hvalue
      obtain ⟨stored', hstored', hstoredType⟩ := AssignOp.exists_check htype alike.type hstored pos
      refine ⟨.assign ⟨pos, s', .invalid⟩ ⟨targetPos, s', t'⟩ target op value₂, s', ?_, hs, ?_⟩
      · simp only [Stmt.check, ht', hvalue', Path.checkTarget_alike hs htarget, hstored', ok_bind,
          ite_else_illTyped_eq_ok, htype.equal_eq hstoredType, hequal, pure_eq_ok, and_self]
      · intro c hc
        simp only [Stmt.toCode, bind_eq_ok] at hc ⊢
        obtain ⟨term, hterm, hc⟩ := hc
        exact ⟨term, alike.term term hterm, assignCode_pos hc _⟩
  | s, s', .when pos test body, stmt₁, next, hs, h => by
      simp only [Stmt.map, Stmt.check, bind_eq_ok, ite_illTyped_eq_ok, pure_eq_ok, Prod.exists,
        Prod.mk.injEq] at h
      obtain ⟨test₁, htest, hbool, body₁, _, hbody, rfl, rfl⟩ := h
      obtain ⟨test₂, htest', atest⟩ := Expr.exists_check hlm hks hs f htest
      obtain ⟨body₂, _, hbody', -, abody⟩ := Stmt.exists_check hlm hks f hs hbody
      refine ⟨.when ⟨pos, s', .invalid⟩ test₂ body₂, s', ?_, hs, ?_⟩
      · simp only [Stmt.check, htest', ok_bind, ite_illTyped_eq_ok, atest.type.kind_eq, hs.length,
          hbody', pure_eq_ok, and_true]
        exact hbool
      · intro c hc
        simp only [Stmt.toCode, bind_eq_ok] at hc ⊢
        obtain ⟨t, ht, b, hb, hc⟩ := hc
        exact ⟨t, atest.term t ht, b, abody b hb, hc⟩
  | s, s', .branch pos test yes no, stmt₁, next, hs, h => by
      simp only [Stmt.map, Stmt.check, bind_eq_ok, ite_illTyped_eq_ok, pure_eq_ok, Prod.exists,
        Prod.mk.injEq] at h
      obtain ⟨test₁, htest, hbool, yes₁, _, hyes, no₁, _, hno, rfl, rfl⟩ := h
      obtain ⟨test₂, htest', atest⟩ := Expr.exists_check hlm hks hs f htest
      obtain ⟨yes₂, _, hyes', -, ayes⟩ := Stmt.exists_check hlm hks f hs hyes
      obtain ⟨no₂, _, hno', -, ano⟩ := Stmt.exists_check hlm hks f hs hno
      refine ⟨.branch ⟨pos, s', .invalid⟩ test₂ yes₂ no₂, s', ?_, hs, ?_⟩
      · simp only [Stmt.check, htest', ok_bind, ite_illTyped_eq_ok, atest.type.kind_eq, hs.length,
          hyes', hno', pure_eq_ok, and_true]
        exact hbool
      · intro c hc
        simp only [Stmt.toCode, bind_eq_ok] at hc ⊢
        obtain ⟨t, ht, y, hy, n, hn, hc⟩ := hc
        exact ⟨t, atest.term t ht, y, ayes y hy, n, ano n hn, hc⟩

/-- The same for statements in turn. -/
theorem Stmt.exists_checkAll (hlm : l.Alike m) (hks : ks.SameNames ks') (f : Position → Position)
    {start : Nat} :
    ∀ {s s' : Scope} {stmts : List (Stmt Position)} {stmts₁ : List (Stmt Note)}, s.Alike l m s' →
      Stmt.checkAll s start (Stmt.mapAll f stmts) = .ok stmts₁ →
      ∃ stmts₂, Stmt.checkAll s' start stmts = .ok stmts₂ ∧
        ∀ cs, Stmt.toCodes ks stmts₁ = .ok cs → Stmt.toCodes ks' stmts₂ = .ok cs
  | s, s', [], stmts₁, hs, h => by
      cases h
      exact ⟨[], rfl, fun _ hcs => hcs⟩
  | s, s', stmt :: stmts, stmts₁, hs, h => by
      simp only [Stmt.mapAll, Stmt.checkAll, bind_eq_ok, pure_eq_ok, Prod.exists] at h
      obtain ⟨stmt₁, next, hstmt, more₁, hmore, rfl⟩ := h
      obtain ⟨stmt₂, next', hstmt', hnext, alike⟩ := Stmt.exists_check hlm hks f hs hstmt
      obtain ⟨more₂, hmore', alikeMore⟩ := Stmt.exists_checkAll hlm hks f hnext hmore
      refine ⟨stmt₂ :: more₂, ?_, ?_⟩
      · simp only [Stmt.checkAll, hstmt', ok_bind, hmore', pure_eq_ok]
      · intro cs hcs
        simp only [Stmt.toCodes, bind_eq_ok] at hcs ⊢
        obtain ⟨c, hc, ds, hds, hcs⟩ := hcs
        exact ⟨c, alike c hc, ds, alikeMore ds hds, hcs⟩

end

end Cellular
