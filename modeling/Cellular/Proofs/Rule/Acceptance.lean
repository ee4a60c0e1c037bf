import Cellular.Proofs.Rule.WellTyped
import Cellular.Proofs.Source.Statements

/-!
# What the check accepts

The typing rules once more, stated on trees without notes: they need the names in scope and nothing
else.  The check succeeds on exactly the trees that have a type by these rules.

* `Expr.HasType`, `Stmt.Typed` and `Stmt.AllTyped` are the rules, `Stmt.next` is the scope behind a
  statement.
* `BinaryOp.result?_eq_some_iff`, `Path.check_eq_ok_iff` and `AssignOp.check_eq_ok_iff` say what
  passes at one node.
* `Expr.exists_check_iff`, `Stmt.exists_check_iff` and `Program.exists_check_iff` say which trees
  are accepted.

The rules on annotated trees follow from a successful check; for the converse the notes are in the
way, since a tree that has not been checked has none.  Therefore the rules are stated again on bare
trees, with the type of an expression as a second argument instead of a note.  A bare expression has
at most one type, so that the theorems can say which type the check finds and not only that it
succeeds.  They are equivalences: two programs with the same bare tree are accepted or refused
together.
-/

namespace Cellular

/-! ## Typing rules

These rules need no notes and carry no places.  A declaration of an unknown type is not well-typed,
so what the scope behind it says of its type does not matter.
-/

/-- The typing rules of expressions: `e` has the type `t` where the names of `scope` are visible. -/
def Expr.HasType (scope : Scope) : Expr Unit → Ty → Prop
  | .ternary _ test yes no, t => test.HasType scope .bool ∧ yes.HasType scope t ∧ no.HasType scope t
  | .binary _ op left right, t => ∃ u, left.HasType scope u ∧ right.HasType scope u ∧ op.Typed u t
  | .unary _ op operand, t => operand.HasType scope t ∧ op.Typed t
  | .cast _ target operand, t =>
    (∃ u, operand.HasType scope u ∧ u.isScalar) ∧ target.type? = some t
  | .int .., t => t = .int
  | .float .., t => t = .float
  | .bool .., t => t = .bool
  | .access _ path, t => path.HasType scope t

/-- The scope behind a statement. -/
def Stmt.next (scope : Scope) : Stmt Unit → Scope
  | .declare _ type name _ => scope.declare name (type.type?.getD .invalid)
  | _ => scope

mutual

/-- The typing rules of statements, in a block that started at depth `start`. -/
def Stmt.Typed (scope : Scope) (start : Nat) : Stmt Unit → Prop
  | .block _ body => Stmt.AllTyped scope scope.length body
  | .declare _ type name init =>
    ∃ t, type.type? = some t ∧ hasDoubleUnderscore name.toList = false ∧
      scope.declaredSince start name = false ∧ ∀ e, init = some e → e.HasType scope t
  | .assign _ _ target op value =>
    ∃ t u, target.HasType scope t ∧ target.Assignable scope ∧ value.HasType scope u ∧ op.Typed t u
  | .when _ test body => test.HasType scope .bool ∧ Stmt.Typed scope scope.length body
  | .branch _ test yes no =>
    test.HasType scope .bool ∧ Stmt.Typed scope scope.length yes ∧ Stmt.Typed scope scope.length no

/-- Statements in turn, each in the scope behind the one before it. -/
def Stmt.AllTyped (scope : Scope) (start : Nat) : List (Stmt Unit) → Prop
  | [] => True
  | s :: ss => Stmt.Typed scope start s ∧ Stmt.AllTyped (s.next scope) start ss

end

/-! ## Operators and names

At a single node, what passes is said with both directions.
-/

/-- The table of the binary operators is the typing rules. -/
lemma BinaryOp.result?_eq_some_iff {op : BinaryOp} {l r t : Ty} :
    op.result? l r = some t ↔ r = l ∧ op.Typed l t := by
  refine ⟨BinaryOp.typed_of_result?, ?_⟩
  rintro ⟨rfl, htyped⟩
  cases htyped with
  | or | and | eq | ne | mod => simp [BinaryOp.result?, Ty.equal_self, Ty.kind]
  | order hop hnumeric =>
      simp only [List.mem_cons, List.not_mem_nil, or_false] at hop
      rcases hop with rfl | rfl | rfl | rfl <;> simp [BinaryOp.result?, Ty.equal_self, hnumeric]
  | arithmetic hop hnumeric =>
      simp only [List.mem_cons, List.not_mem_nil, or_false] at hop
      rcases hop with rfl | rfl | rfl | rfl <;> simp [BinaryOp.result?, Ty.equal_self, hnumeric]

lemma UnaryOp.appliesTo_iff {op : UnaryOp} {t : Ty} : op.appliesTo t = true ↔ op.Typed t := by
  refine ⟨UnaryOp.typed_of_appliesTo, ?_⟩
  rintro ⟨⟩ <;> rfl

/-- What has a property is a struct. -/
lemma Ty.kind_of_prop? {t u : Ty} {name : String} (h : t.prop? name = some u) :
    t.kind = .struct := by
  cases t <;> simp_all [Ty.prop?, Ty.props, Ty.kind]

lemma walkProps_eq_ok_iff {pos : Position} {u : Ty} {names : List String} :
    ∀ {walked : String} {t : Ty},
      walkProps pos walked t names = .ok u ↔ t.follow? names = some u := by
  induction names with
  | nil => simp [walkProps, Ty.follow?]
  | cons name more ih =>
      intro walked t
      rw [walkProps, ite_illTyped_eq_ok, Ty.follow?]
      cases hprop : t.prop? name with
      | none => simp [illTyped]
      | some v => simpa [Ty.kind_of_prop? hprop] using ih

/-- The check of a dotted name finds its type. -/
lemma Path.check_eq_ok_iff {pos : Position} {scope : Scope} {path : Path} {t : Ty} :
    path.check pos scope = .ok t ↔ path.HasType scope t := by
  rw [Path.check, Path.HasType]
  cases scope.find? path.root with
  | none => simp [illTyped]
  | some found =>
      obtain ⟨b, slot⟩ := found
      simp [walkProps_eq_ok_iff]

/-- A dotted name has one type at most. -/
lemma Path.HasType.unique {scope : Scope} {path : Path} {t u : Ty} (ht : path.HasType scope t)
    (hu : path.HasType scope u) : t = u := by
  obtain ⟨b, slot, hfind, ht⟩ := ht
  obtain ⟨b', slot', hfind', hu⟩ := hu
  obtain ⟨rfl, -⟩ := Prod.mk.inj (Option.some.inj (hfind.symm.trans hfind'))
  exact Option.some.inj (ht.symm.trans hu)

lemma Path.checkTarget_eq_ok_iff (pos : Position) {scope : Scope} {path : Path} :
    path.checkTarget pos scope = .ok () ↔ path.Assignable scope := by
  refine ⟨Path.assignable_of_checkTarget, ?_⟩
  obtain ⟨root, rest⟩ := path
  rw [Path.checkTarget, Path.Assignable]
  rcases rest with _ | ⟨field, _ | ⟨second, more⟩⟩
  · rintro ⟨b, slot, hfind, hassign⟩
    simp [hfind, hassign]
  · rintro ⟨hroot, hhidden⟩
    cases hfind : scope.find? root with
    | none => simp_all
    | some found =>
        obtain ⟨b, slot⟩ := found
        simp_all
  · exact False.elim

/-- What an assignment stores has the type of its target exactly if its operator is well-typed. -/
lemma AssignOp.check_eq_ok_iff (pos : Position) {op : AssignOp} {target value : Ty} :
    (∃ stored, op.check pos target value = .ok stored ∧ target.equal stored = true)
      ↔ op.Typed target value := by
  refine ⟨fun ⟨_, hstored, hequal⟩ => AssignOp.typed_of_check hstored hequal, ?_⟩
  intro h
  rw [AssignOp.Typed] at h
  refine ⟨target, ?_, target.equal_self⟩
  rw [AssignOp.check]
  cases hop : op.binaryOp? with
  | none => simpa [hop] using h
  | some b =>
      simp only [hop] at h ⊢
      rw [BinaryOp.result?_eq_some_iff.mpr h]

/-! ## Expressions

In one direction the parts of a checked expression have types by induction; in the other the checks
of the parts succeed and the check of the node finds their types right.
-/

/-- **The check finds the type that an expression has**, and fails where it has none. -/
theorem Expr.exists_check_iff {scope : Scope} {e : Expr Position} :
    ∀ {t : Ty}, (∃ e', e.check scope = .ok e' ∧ e'.type = t) ↔ e.bare.HasType scope t := by
  induction e with
  | ternary pos test yes no ihtest ihyes ihno =>
      intro t
      change _ ↔ test.bare.HasType scope .bool ∧ yes.bare.HasType scope t ∧ no.bare.HasType scope t
      rw [← ihtest, ← ihyes, ← ihno]
      simp only [Expr.check, bind_eq_ok, ite_illTyped_eq_ok, pure_eq_ok]
      constructor
      · rintro ⟨_, ⟨test', htest, yes', hyes, no', hno, hbool, hequal, rfl⟩, rfl⟩
        exact ⟨⟨test', htest, Ty.kind_eq_boolean.mp (by simpa using hbool)⟩, ⟨yes', hyes, rfl⟩,
          no', hno, (Ty.eq_of_equal (by rwa [Bool.not_eq_true', Bool.not_eq_false] at hequal)).symm⟩
      · rintro ⟨⟨test', htest, hbool⟩, ⟨yes', hyes, rfl⟩, no', hno, hsame⟩
        exact ⟨_, ⟨test', htest, yes', hyes, no', hno, by simp [hbool, Ty.kind],
          by simp [hsame, Ty.equal_self], rfl⟩, rfl⟩
  | binary pos op left right ihleft ihright =>
      intro t
      change _ ↔ ∃ u, left.bare.HasType scope u ∧ right.bare.HasType scope u ∧ op.Typed u t
      simp only [← ihleft, ← ihright, Expr.check, bind_eq_ok]
      constructor
      · rintro ⟨e', ⟨left', hleft, right', hright, h⟩, rfl⟩
        split at h
        · cases h
        · rename_i t ht
          cases h
          obtain ⟨hsame, htyped⟩ := BinaryOp.result?_eq_some_iff.mp ht
          exact ⟨left'.type, ⟨left', hleft, rfl⟩, ⟨right', hright, hsame⟩, htyped⟩
      · rintro ⟨_, ⟨left', hleft, rfl⟩, ⟨right', hright, hsame⟩, htyped⟩
        refine ⟨.binary ⟨pos, scope, t⟩ op left' right', ⟨left', hleft, right', hright, ?_⟩, rfl⟩
        rw [BinaryOp.result?_eq_some_iff.mpr ⟨hsame, htyped⟩]
        rfl
  | unary pos op operand ih =>
      intro t
      change _ ↔ operand.bare.HasType scope t ∧ op.Typed t
      simp only [← ih, Expr.check, bind_eq_ok, ite_else_illTyped_eq_ok, pure_eq_ok,
        UnaryOp.appliesTo_iff]
      constructor
      · rintro ⟨_, ⟨operand', hoperand, hop, rfl⟩, rfl⟩
        exact ⟨⟨operand', hoperand, rfl⟩, hop⟩
      · rintro ⟨⟨operand', hoperand, rfl⟩, hop⟩
        exact ⟨_, ⟨operand', hoperand, hop, rfl⟩, rfl⟩
  | cast pos target operand ih =>
      intro t
      change _ ↔ (∃ u, operand.bare.HasType scope u ∧ u.isScalar) ∧ target.type? = some t
      simp only [← ih, Expr.check, bind_eq_ok, ite_illTyped_eq_ok]
      constructor
      · rintro ⟨e', ⟨operand', hoperand, hscalar, h⟩, rfl⟩
        split at h
        · cases h
        · rename_i t ht
          cases h
          exact ⟨⟨operand'.type, ⟨operand', hoperand, rfl⟩, by simpa using hscalar⟩, ht⟩
      · rintro ⟨⟨_, ⟨operand', hoperand, rfl⟩, hscalar⟩, htarget⟩
        refine ⟨.cast ⟨pos, scope, t⟩ target operand', ⟨operand', hoperand, by simpa using hscalar, ?_⟩,
          rfl⟩
        rw [htarget]
        rfl
  | int pos v text | float pos v text | bool pos v =>
      intro t
      simp [Expr.check, Expr.bare, Expr.map, Expr.HasType, Expr.type, Expr.note, eq_comm]
  | access pos path =>
      intro t
      change _ ↔ path.HasType scope t
      simp only [Expr.check, bind_eq_ok, pure_eq_ok, Path.check_eq_ok_iff]
      constructor
      · rintro ⟨_, ⟨t, ht, rfl⟩, rfl⟩
        exact ht
      · intro ht
        exact ⟨_, ⟨t, ht, rfl⟩, rfl⟩

/-! ## Statements

A statement is accepted together with the scope behind it, which does not depend on what its
expressions are.
-/

/-- An initial value is accepted if it has the type of its variable. -/
lemma exists_checkInit_iff (pos : Position) (name : String) {scope : Scope} {t : Ty}
    {init : Option (Expr Position)} :
    (∃ init', checkInit scope pos name t init = .ok init')
      ↔ ∀ e, init.map Expr.bare = some e → e.HasType scope t := by
  cases init with
  | none => simp [checkInit]
  | some e =>
      simp only [Option.map_some, Option.some.injEq, forall_eq', ← Expr.exists_check_iff, checkInit,
        bind_eq_ok, ite_else_illTyped_eq_ok, pure_eq_ok, Ty.equal_iff]
      constructor
      · rintro ⟨_, e', he, htype, -⟩
        exact ⟨e', he, htype⟩
      · rintro ⟨e', he, htype⟩
        exact ⟨_, e', he, htype, rfl⟩

mutual

/-- **The check accepts the well-typed statements**, and finds the scope behind them. -/
theorem Stmt.exists_check_iff {scope : Scope} {start : Nat} :
    ∀ {s : Stmt Position} {next : Scope}, (∃ s', Stmt.check scope start s = .ok (s', next))
      ↔ s.bare.Typed scope start ∧ next = s.bare.next scope
  | .block pos body, next => by
      change _ ↔ Stmt.AllTyped scope scope.length (Stmt.allBare body) ∧ next = scope
      rw [← Stmt.exists_checkAll_iff]
      simp only [Stmt.check, bind_eq_ok, pure_eq_ok, Prod.mk.injEq]
      constructor
      · rintro ⟨_, body', hbody, -, rfl⟩
        exact ⟨⟨body', hbody⟩, rfl⟩
      · rintro ⟨⟨body', hbody⟩, rfl⟩
        exact ⟨_, body', hbody, rfl, rfl⟩
  | .declare pos type name init, next => by
      change _ ↔ (∃ t, type.type? = some t ∧ hasDoubleUnderscore name.toList = false ∧
        scope.declaredSince start name = false ∧
        ∀ e, init.map Expr.bare = some e → e.HasType scope t) ∧
        next = scope.declare name (type.type?.getD .invalid)
      rw [Stmt.check]
      cases htype : type.type? with
      | none => simp [illTyped]
      | some t =>
          simp only [Option.some.injEq, exists_eq_left',
            ← exists_checkInit_iff pos name, ite_illTyped_eq_ok, bind_eq_ok, pure_eq_ok,
            Prod.mk.injEq, Bool.not_eq_true, Option.getD_some]
          constructor
          · rintro ⟨_, hunder, hsince, init', hinit, -, rfl⟩
            exact ⟨⟨hunder, hsince, init', hinit⟩, rfl⟩
          · rintro ⟨⟨hunder, hsince, init', hinit⟩, rfl⟩
            exact ⟨_, hunder, hsince, init', hinit, rfl, rfl⟩
  | .assign pos targetPos target op value, next => by
      change _ ↔ (∃ t u, target.HasType scope t ∧ target.Assignable scope ∧
        value.bare.HasType scope u ∧ op.Typed t u) ∧ next = scope
      simp only [Stmt.check, bind_eq_ok, ite_else_illTyped_eq_ok, pure_eq_ok, Prod.mk.injEq,
        Path.check_eq_ok_iff, ← Expr.exists_check_iff, ← AssignOp.check_eq_ok_iff pos,
        ← Path.checkTarget_eq_ok_iff pos]
      constructor
      · rintro ⟨_, t, ht, value', hvalue, _, hassign, stored, hstored, hequal, -, rfl⟩
        exact ⟨⟨t, value'.type, ht, hassign, ⟨value', hvalue, rfl⟩, stored, hstored, hequal⟩, rfl⟩
      · rintro ⟨⟨t, _, ht, hassign, ⟨value', hvalue, rfl⟩, stored, hstored, hequal⟩, rfl⟩
        exact ⟨_, t, ht, value', hvalue, (), hassign, stored, hstored, hequal, rfl, rfl⟩
  | .when pos test body, next => by
      change _ ↔ (test.bare.HasType scope .bool ∧ Stmt.Typed scope scope.length body.bare) ∧
        next = scope
      rw [← Expr.exists_check_iff]
      simp only [Stmt.check, bind_eq_ok, ite_illTyped_eq_ok, pure_eq_ok, Prod.exists,
        Prod.mk.injEq, not_not, ne_eq, Ty.kind_eq_boolean]
      constructor
      · rintro ⟨_, test', htest, hbool, body', _, hbody, -, rfl⟩
        exact ⟨⟨⟨test', htest, hbool⟩, (Stmt.exists_check_iff.mp ⟨body', hbody⟩).1⟩, rfl⟩
      · rintro ⟨⟨⟨test', htest, hbool⟩, hbody⟩, rfl⟩
        obtain ⟨body', hbody'⟩ := Stmt.exists_check_iff.mpr ⟨hbody, rfl⟩
        exact ⟨_, test', htest, hbool, body', _, hbody', rfl, rfl⟩
  | .branch pos test yes no, next => by
      change _ ↔ (test.bare.HasType scope .bool ∧ Stmt.Typed scope scope.length yes.bare ∧
        Stmt.Typed scope scope.length no.bare) ∧ next = scope
      rw [← Expr.exists_check_iff]
      simp only [Stmt.check, bind_eq_ok, ite_illTyped_eq_ok, pure_eq_ok, Prod.exists,
        Prod.mk.injEq, not_not, ne_eq, Ty.kind_eq_boolean]
      constructor
      · rintro ⟨_, test', htest, hbool, yes', _, hyes, no', _, hno, -, rfl⟩
        exact ⟨⟨⟨test', htest, hbool⟩, (Stmt.exists_check_iff.mp ⟨yes', hyes⟩).1,
          (Stmt.exists_check_iff.mp ⟨no', hno⟩).1⟩, rfl⟩
      · rintro ⟨⟨⟨test', htest, hbool⟩, hyes, hno⟩, rfl⟩
        obtain ⟨yes', hyes'⟩ := Stmt.exists_check_iff.mpr ⟨hyes, rfl⟩
        obtain ⟨no', hno'⟩ := Stmt.exists_check_iff.mpr ⟨hno, rfl⟩
        exact ⟨_, test', htest, hbool, yes', _, hyes', no', _, hno', rfl, rfl⟩

/-- The check accepts the statements that are well-typed in turn. -/
theorem Stmt.exists_checkAll_iff {scope : Scope} {start : Nat} :
    ∀ {ss : List (Stmt Position)}, (∃ ss', Stmt.checkAll scope start ss = .ok ss')
      ↔ Stmt.AllTyped scope start (Stmt.allBare ss)
  | [] => by simp [Stmt.checkAll, Stmt.allBare, Stmt.mapAll, Stmt.AllTyped]
  | s :: ss => by
      rw [Stmt.allBare, Stmt.mapAll, Stmt.AllTyped, ← Stmt.bare, ← Stmt.allBare]
      simp only [Stmt.checkAll, bind_eq_ok, pure_eq_ok, Prod.exists]
      constructor
      · rintro ⟨_, s', next, hs, ss', hss, -⟩
        obtain ⟨htyped, rfl⟩ := Stmt.exists_check_iff.mp ⟨s', hs⟩
        exact ⟨htyped, Stmt.exists_checkAll_iff.mp ⟨ss', hss⟩⟩
      · rintro ⟨hs, hss⟩
        obtain ⟨s', hs'⟩ := Stmt.exists_check_iff.mpr ⟨hs, rfl⟩
        obtain ⟨ss', hss'⟩ := Stmt.exists_checkAll_iff.mpr hss
        exact ⟨_, s', _, hs', ss', hss', rfl⟩

end

/-- **The check accepts exactly the well-typed programs.** -/
theorem Program.exists_check_iff {root : Scope} {p : Program Position} :
    (∃ q, p.check root = .ok q) ↔ Stmt.AllTyped root root.length (Stmt.allBare p.body) := by
  rw [← Stmt.exists_checkAll_iff]
  simp only [Program.check, bind_eq_ok, pure_eq_ok]
  constructor
  · rintro ⟨_, body, hbody, -⟩
    exact ⟨body, hbody⟩
  · rintro ⟨body, hbody⟩
    exact ⟨_, body, hbody, rfl⟩

end Cellular
