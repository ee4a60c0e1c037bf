import Cellular.Rule.Typing
import Cellular.Proofs.Success

/-!
# Well-typed rules

The typing rules of the language, stated on annotated trees, and what the check has to do with them.

* `Expr.WellTyped` and `Stmt.WellTyped` say that the notes of a tree are right: every node has the
  scope that it sees, and every expression the type that the rules give it.
* `Stmt.after` and `Stmt.afterAll` are the scopes behind statements.
* `Expr.Scalars` and `Stmt.Scalars` leave out the names of whole cells, which have a type but no
  value.
* `Expr.wellTyped_of_check` and `Stmt.wellTyped_of_check`: the check annotates trees rightly.
* `Expr.map_pos_of_check` and `Stmt.map_pos_of_check`: it changes nothing but the notes.

The check is a recursive function that fails at the first fault and hands a scope along.  The rules
are predicates by recursion on the tree that has been annotated; they mention no errors and no order
of checks.  Going from the check to the rules is one induction for expressions and one for
statements, with a case for each form: the success of a case is taken apart step by step, and what
is left are the premises of its rule.  Nothing of the check is used later: theorems about running
rules start from `Expr.WellTyped` and `Stmt.WellTyped`.
-/

namespace Cellular

/-! ## Types

Types are compared by a recursive function of their own, which has to be shown to decide equality
before the check of an expression can be read as a rule.
-/

mutual

/-- Types that compare as equal are equal. -/
theorem Ty.eq_of_equal : ∀ {t u : Ty}, t.equal u = true → t = u
  | .struct ps, .struct qs, h => by
      rw [Ty.equal] at h
      rw [Ty.eq_of_equalProps h]
  | .invalid, u, h => by cases u <;> simp_all [Ty.equal]
  | .bool, u, h => by cases u <;> simp_all [Ty.equal]
  | .float, u, h => by cases u <;> simp_all [Ty.equal]
  | .int, u, h => by cases u <;> simp_all [Ty.equal]
  | .other c, u, h => by cases u <;> simp_all [Ty.equal]

/-- Properties that compare as equal are equal. -/
theorem Ty.eq_of_equalProps :
    ∀ {ps qs : List (String × Ty)}, Ty.equalProps ps qs = true → ps = qs
  | [], [], _ => rfl
  | (n, t) :: ps, (m, u) :: qs, h => by
      simp only [Ty.equalProps, Bool.and_eq_true, decide_eq_true_eq] at h
      rw [h.1.1, Ty.eq_of_equal h.1.2, Ty.eq_of_equalProps h.2]

end

mutual

/-- Every type compares as equal to itself. -/
theorem Ty.equal_self : ∀ t : Ty, t.equal t = true
  | .struct ps => by
      rw [Ty.equal]
      exact Ty.equalProps_self ps
  | .invalid | .bool | .float | .int => by simp only [Ty.equal]
  | .other c => by simp only [Ty.equal, decide_true]

/-- The same for the properties of a structure in turn. -/
theorem Ty.equalProps_self : ∀ ps : List (String × Ty), Ty.equalProps ps ps = true
  | [] => by simp only [Ty.equalProps]
  | (n, t) :: ps => by
      simp only [Ty.equalProps, Ty.equal_self t, Ty.equalProps_self ps, decide_true, Bool.and_self]

end

lemma Ty.equal_iff {t u : Ty} : t.equal u = true ↔ t = u := by
  constructor
  · exact Ty.eq_of_equal
  · rintro rfl
    exact t.equal_self

/-- The truth values are the only type of their kind. -/
lemma Ty.kind_eq_boolean {t : Ty} : t.kind = .boolean ↔ t = .bool := by
  cases t <;> simp [Ty.kind]

lemma Ty.kind_eq_int {t : Ty} : t.kind = .int ↔ t = .int := by
  cases t <;> simp [Ty.kind]

/-- The type that the parts behind the dots of a name lead to. -/
def Ty.follow? (t : Ty) : List String → Option Ty
  | [] => some t
  | name :: more =>
    match t.prop? name with
    | none => none
    | some u => u.follow? more

lemma follow?_of_walkProps {pos : Position} {u : Ty} :
    ∀ {names : List String} {walked : String} {t : Ty},
      walkProps pos walked t names = .ok u → t.follow? names = some u
  | [], _, _, h => by
      simp only [walkProps, Except.ok.injEq] at h
      rw [Ty.follow?, h]
  | name :: more, walked, t, h => by
      rw [walkProps] at h
      split_ifs at h
      · cases h
      · split at h
        · cases h
        · rename_i v hv
          rw [Ty.follow?, hv]
          exact follow?_of_walkProps h

/-! ## Typing rules

The rules give every node a scope and a type.  Statements also have the depth at which their block
started, since a name may be declared once in a block and again in a block inside it.
-/

/-- `op.Typed t u`: between operands of type `t` the operator has a result of type `u`. -/
inductive BinaryOp.Typed : BinaryOp → Ty → Ty → Prop where
  | or : Typed .or .bool .bool
  | and : Typed .and .bool .bool
  | eq {t : Ty} : Typed .eq t .bool
  | ne {t : Ty} : Typed .ne t .bool
  | order {op : BinaryOp} {t : Ty} (hop : op ∈ [.lt, .le, .gt, .ge]) (ht : t.isNumeric) :
      Typed op t .bool
  | arithmetic {op : BinaryOp} {t : Ty} (hop : op ∈ [.add, .sub, .mul, .div]) (ht : t.isNumeric) :
      Typed op t t
  | mod : Typed .mod .int .int

/-- `op.Typed t`: the operator applies to type `t`, and its result has the same type. -/
inductive UnaryOp.Typed : UnaryOp → Ty → Prop where
  | not : Typed .not .bool
  | negInt : Typed .neg .int
  | negFloat : Typed .neg .float

/-- The type of a dotted name: that of the innermost binding of its first part, followed along the
other parts. -/
def Path.HasType (scope : Scope) (path : Path) (t : Ty) : Prop :=
  ∃ b slot, scope.find? path.root = some (b, slot) ∧ b.type.follow? path.rest = some t

/-- The dotted names that may be assigned to: variables, and the fields of the cell unless a
variable hides it. -/
def Path.Assignable (scope : Scope) (path : Path) : Prop :=
  match path.rest with
  | [] => ∃ b slot, scope.find? path.root = some (b, slot) ∧ b.assignable
  | [_] => path.root = cellName ∧
      ∀ b slot, scope.find? path.root = some (b, slot) → b.assignable = false
  | _ => False

/-- The operator of an assignment gives the target a value of its own type. -/
def AssignOp.Typed (op : AssignOp) (target value : Ty) : Prop :=
  match op.binaryOp? with
  | none => value = target
  | some b => value = target ∧ b.Typed target target

/-- Every node has the scope `scope` and the type that the typing rules give it. -/
def Expr.WellTyped (scope : Scope) : Expr Note → Prop
  | .ternary n test yes no =>
    n.scope = scope ∧ test.WellTyped scope ∧ yes.WellTyped scope ∧ no.WellTyped scope ∧
      test.type = .bool ∧ yes.type = n.type ∧ no.type = n.type
  | .binary n op left right =>
    n.scope = scope ∧ left.WellTyped scope ∧ right.WellTyped scope ∧ right.type = left.type ∧
      op.Typed left.type n.type
  | .unary n op operand =>
    n.scope = scope ∧ operand.WellTyped scope ∧ operand.type = n.type ∧ op.Typed n.type
  | .cast n target operand =>
    n.scope = scope ∧ operand.WellTyped scope ∧ operand.type.isScalar ∧
      target.type? = some n.type
  | .int n _ _ => n.scope = scope ∧ n.type = .int
  | .float n _ _ => n.scope = scope ∧ n.type = .float
  | .bool n _ => n.scope = scope ∧ n.type = .bool
  | .access n path => n.scope = scope ∧ path.HasType scope n.type

/-- The scope behind a statement: only a declaration changes it. -/
def Stmt.after (scope : Scope) : Stmt Note → Scope
  | .declare n _ name _ => scope.declare name n.type
  | _ => scope

/-- The scope behind statements in turn. -/
def Stmt.afterAll (scope : Scope) : List (Stmt Note) → Scope
  | [] => scope
  | s :: ss => Stmt.afterAll (s.after scope) ss

mutual

/-- The statement has right notes where `scope` is visible, in a block that started at depth
`start`. -/
def Stmt.WellTyped (scope : Scope) (start : Nat) : Stmt Note → Prop
  | .block n body => n.scope = scope ∧ Stmt.AllWellTyped scope scope.length body
  | .declare n type name init =>
    n.scope = scope ∧ type.type? = some n.type ∧ hasDoubleUnderscore name.toList = false ∧
      scope.declaredSince start name = false ∧
      ∀ e, init = some e → e.WellTyped scope ∧ e.type = n.type
  | .assign n m target op value =>
    n.scope = scope ∧ m.scope = scope ∧ target.HasType scope m.type ∧ target.Assignable scope ∧
      value.WellTyped scope ∧ op.Typed m.type value.type
  | .when n test body =>
    n.scope = scope ∧ test.WellTyped scope ∧ test.type = .bool ∧
      Stmt.WellTyped scope scope.length body
  | .branch n test yes no =>
    n.scope = scope ∧ test.WellTyped scope ∧ test.type = .bool ∧
      Stmt.WellTyped scope scope.length yes ∧ Stmt.WellTyped scope scope.length no

/-- Statements in turn, each in the scope behind the one before it. -/
def Stmt.AllWellTyped (scope : Scope) (start : Nat) : List (Stmt Note) → Prop
  | [] => True
  | s :: ss => Stmt.WellTyped scope start s ∧ Stmt.AllWellTyped (s.after scope) start ss

end

/-- The scope behind a statement only grows. -/
lemma Stmt.suffix_after (scope : Scope) (s : Stmt Note) : scope <:+ s.after scope := by
  cases s with
  | declare n type name init => exact List.suffix_cons _ _
  | block | assign | when | branch => exact List.suffix_rfl

lemma Stmt.suffix_afterAll :
    ∀ (scope : Scope) (ss : List (Stmt Note)), scope <:+ Stmt.afterAll scope ss
  | _, [] => List.suffix_rfl
  | scope, s :: ss => (s.suffix_after scope).trans (Stmt.suffix_afterAll (s.after scope) ss)

/-! ## Whole cells

The two cells are structures.  Their names have a type, but no variable can hold a structure and no
operator but a comparison takes one.
-/

/-- No name in the expression stands for a whole cell, which is not a value. -/
def Expr.Scalars : Expr Note → Prop
  | .ternary _ test yes no => test.Scalars ∧ yes.Scalars ∧ no.Scalars
  | .binary _ _ left right => left.Scalars ∧ right.Scalars
  | .unary _ _ operand => operand.Scalars
  | .cast _ _ operand => operand.Scalars
  | .access n _ => n.type.kind ≠ .struct
  | .int .. | .float .. | .bool .. => True

mutual

/-- No name in the expressions of the statement stands for a whole cell. -/
def Stmt.Scalars : Stmt Note → Prop
  | .block _ body => Stmt.AllScalars body
  | .declare _ _ _ init => ∀ e, init = some e → e.Scalars
  | .assign _ _ _ _ value => value.Scalars
  | .when _ test body => test.Scalars ∧ Stmt.Scalars body
  | .branch _ test yes no => test.Scalars ∧ Stmt.Scalars yes ∧ Stmt.Scalars no

/-- The same for statements in turn. -/
def Stmt.AllScalars : List (Stmt Note) → Prop
  | [] => True
  | s :: ss => Stmt.Scalars s ∧ Stmt.AllScalars ss

end

/-! ## Parts of expressions

Some theorems speak of every expression that is met during a run, down to the literals.  They are
stated for the parts of an expression.
-/

/-- An expression together with all expressions inside it. -/
def Expr.parts {α : Type} : Expr α → List (Expr α)
  | .ternary n test yes no => .ternary n test yes no :: (test.parts ++ (yes.parts ++ no.parts))
  | .binary n op left right => .binary n op left right :: (left.parts ++ right.parts)
  | .unary n op operand => .unary n op operand :: operand.parts
  | .cast n target operand => .cast n target operand :: operand.parts
  | .int n v text => [.int n v text]
  | .float n v text => [.float n v text]
  | .bool n v => [.bool n v]
  | .access n path => [.access n path]

/-- The parts of a well-typed expression are well-typed in the same scope. -/
lemma Expr.WellTyped.parts {s : Scope} {e : Expr Note} (he : e.WellTyped s) :
    ∀ p ∈ e.parts, p.WellTyped s := by
  induction e with
  | ternary n test yes no ihtest ihyes ihno =>
      simp only [Expr.parts, List.forall_mem_cons, List.forall_mem_append]
      exact ⟨he, ihtest he.2.1, ihyes he.2.2.1, ihno he.2.2.2.1⟩
  | binary n op left right ihleft ihright =>
      simp only [Expr.parts, List.forall_mem_cons, List.forall_mem_append]
      exact ⟨he, ihleft he.2.1, ihright he.2.2.1⟩
  | unary n op operand ih =>
      simp only [Expr.parts, List.forall_mem_cons]
      exact ⟨he, ih he.2.1⟩
  | cast n target operand ih =>
      simp only [Expr.parts, List.forall_mem_cons]
      exact ⟨he, ih he.2.1⟩
  | int n v text => simpa [Expr.parts] using he
  | float n v text => simpa [Expr.parts] using he
  | bool n v => simpa [Expr.parts] using he
  | access n path => simpa [Expr.parts] using he

/-- Where no name stands for a whole cell, none does so in a part. -/
lemma Expr.Scalars.parts {e : Expr Note} (he : e.Scalars) : ∀ p ∈ e.parts, p.Scalars := by
  induction e with
  | ternary n test yes no ihtest ihyes ihno =>
      simp only [Expr.parts, List.forall_mem_cons, List.forall_mem_append]
      exact ⟨he, ihtest he.1, ihyes he.2.1, ihno he.2.2⟩
  | binary n op left right ihleft ihright =>
      simp only [Expr.parts, List.forall_mem_cons, List.forall_mem_append]
      exact ⟨he, ihleft he.1, ihright he.2⟩
  | unary n op operand ih =>
      simp only [Expr.parts, List.forall_mem_cons]
      exact ⟨he, ih he⟩
  | cast n target operand ih =>
      simp only [Expr.parts, List.forall_mem_cons]
      exact ⟨he, ih he⟩
  | int n v text => simpa [Expr.parts] using he
  | float n v text => simpa [Expr.parts] using he
  | bool n v => simpa [Expr.parts] using he
  | access n path => simpa [Expr.parts] using he

/-! ## Operators

The tables of operators are finite; each of the lemmas goes through the table of its kind once.
-/

/-- `&&` and `||` combine truth values. -/
lemma BinaryOp.Typed.logic {op : BinaryOp} {t u : Ty} (h : op.Typed t u)
    (hop : op = .and ∨ op = .or) : t = .bool ∧ u = .bool := by
  cases h with
  | or => exact ⟨rfl, rfl⟩
  | and => exact ⟨rfl, rfl⟩
  | eq => simp at hop
  | ne => simp at hop
  | order h _ => rcases hop with rfl | rfl <;> simp at h
  | arithmetic h _ => rcases hop with rfl | rfl <;> simp at h
  | mod => simp at hop

/-- Scalars combine to scalars. -/
lemma BinaryOp.Typed.isScalar {op : BinaryOp} {t u : Ty} (h : op.Typed t u)
    (ht : t.isScalar = true) : u.isScalar = true := by
  cases h with
  | arithmetic _ _ => exact ht
  | or | and | eq | ne | order | mod => rfl

/-- The table of the binary operators follows the typing rules. -/
lemma BinaryOp.typed_of_result? {op : BinaryOp} {l r t : Ty} (h : op.result? l r = some t) :
    r = l ∧ op.Typed l t := by
  simp only [BinaryOp.result?] at h
  split at h
  · cases h
  rename_i hequal
  have hlr : l = r := Ty.eq_of_equal (by simpa using hequal)
  refine ⟨hlr.symm, ?_⟩
  cases op
  case or =>
    simp only at h
    split_ifs at h with hl
    cases h
    exact Ty.kind_eq_boolean.mp hl ▸ .or
  case and =>
    simp only at h
    split_ifs at h with hl
    cases h
    exact Ty.kind_eq_boolean.mp hl ▸ .and
  case eq =>
    cases h
    exact .eq
  case ne =>
    cases h
    exact .ne
  case lt | le | gt | ge =>
    simp only at h
    split_ifs at h with hl
    cases h
    exact .order (by simp) hl
  case add | sub | mul | div =>
    simp only at h
    split_ifs at h with hl
    cases h
    exact .arithmetic (by simp) hl
  case mod =>
    simp only at h
    split_ifs at h with hl
    cases h
    exact Ty.kind_eq_int.mp hl ▸ .mod
  case unknown => cases h

lemma UnaryOp.typed_of_appliesTo {op : UnaryOp} {t : Ty} (h : op.appliesTo t = true) :
    op.Typed t := by
  cases op <;> cases t <;> simp [UnaryOp.appliesTo, Ty.kind, Ty.isNumeric] at h
  · exact .not
  · exact .negFloat
  · exact .negInt

/-- An assignment that passes its check stores a value of the type of its target. -/
lemma AssignOp.typed_of_check {pos : Position} {op : AssignOp} {target value stored : Ty}
    (h : op.check pos target value = .ok stored) (hstored : target.equal stored = true) :
    op.Typed target value := by
  have hequal := Ty.eq_of_equal hstored
  rw [AssignOp.check] at h
  rw [AssignOp.Typed]
  cases hop : op.binaryOp? with
  | none =>
      simp only [hop, Except.ok.injEq] at h
      exact h.trans hequal.symm
  | some b =>
      simp only [hop] at h
      split at h
      · rename_i t ht
        cases h
        obtain ⟨hvalue, htyped⟩ := BinaryOp.typed_of_result? ht
        exact ⟨hvalue, by simpa only [← hequal] using htyped⟩
      · cases h

/-! ## Expressions

The check puts a note on every node.  Taking the notes away again gives the tree that was read, with
its places.
-/

lemma ite_illTyped_eq_ok {β : Type} {p : Prop} [Decidable p] {pos : Position} {cause : TypingCause}
    {x : Except TypingError β} {b : β} :
    (if p then illTyped pos cause else x) = .ok b ↔ ¬ p ∧ x = .ok b := by
  by_cases hp : p <;> simp [hp, illTyped]

lemma ite_else_illTyped_eq_ok {β : Type} {p : Prop} [Decidable p] {pos : Position}
    {cause : TypingCause} {x : Except TypingError β} {b : β} :
    (if p then x else illTyped pos cause) = .ok b ↔ p ∧ x = .ok b := by
  by_cases hp : p <;> simp [hp, illTyped]

lemma Path.hasType_of_check {pos : Position} {scope : Scope} {path : Path} {t : Ty}
    (h : path.check pos scope = .ok t) : path.HasType scope t := by
  rw [Path.check] at h
  split at h
  · cases h
  · rename_i b slot hb
    exact ⟨b, slot, hb, follow?_of_walkProps h⟩

lemma Path.assignable_of_checkTarget {pos : Position} {scope : Scope} {path : Path}
    (h : path.checkTarget pos scope = .ok ()) : path.Assignable scope := by
  rw [Path.checkTarget] at h
  rw [Path.Assignable]
  cases hfind : scope.find? path.root with
  | none =>
      rw [hfind] at h
      simp only at h
      split at h <;> simp_all [illTyped]
  | some found =>
      obtain ⟨b, slot⟩ := found
      rw [hfind] at h
      simp only at h
      split at h <;> simp_all [illTyped]

/-- **A checked expression is well-typed.** -/
theorem Expr.wellTyped_of_check {scope : Scope} :
    ∀ {e : Expr Position} {e' : Expr Note}, e.check scope = .ok e' → e'.WellTyped scope
  | .ternary pos test yes no, e', h => by
      simp only [Expr.check, bind_eq_ok, ite_illTyped_eq_ok, pure_eq_ok] at h
      obtain ⟨test', htest, yes', hyes, no', hno, hbool, hequal, rfl⟩ := h
      have hsame : yes'.type = no'.type := Ty.eq_of_equal (by simpa using hequal)
      exact ⟨rfl, wellTyped_of_check htest, wellTyped_of_check hyes, wellTyped_of_check hno,
        Ty.kind_eq_boolean.mp (by simpa using hbool), rfl, hsame.symm⟩
  | .binary pos op left right, e', h => by
      simp only [Expr.check, bind_eq_ok] at h
      obtain ⟨left', hleft, right', hright, h⟩ := h
      split at h
      · cases h
      · rename_i t ht
        cases h
        obtain ⟨hsame, htyped⟩ := BinaryOp.typed_of_result? ht
        exact ⟨rfl, wellTyped_of_check hleft, wellTyped_of_check hright, hsame, htyped⟩
  | .unary pos op operand, e', h => by
      simp only [Expr.check, bind_eq_ok, ite_else_illTyped_eq_ok, pure_eq_ok] at h
      obtain ⟨operand', hoperand, hop, rfl⟩ := h
      exact ⟨rfl, wellTyped_of_check hoperand, rfl, UnaryOp.typed_of_appliesTo hop⟩
  | .cast pos target operand, e', h => by
      simp only [Expr.check, bind_eq_ok, ite_illTyped_eq_ok] at h
      obtain ⟨operand', hoperand, hscalar, h⟩ := h
      split at h
      · cases h
      · rename_i t ht
        cases h
        exact ⟨rfl, wellTyped_of_check hoperand, by simpa using hscalar, ht⟩
  | .int pos v text, e', h => by
      cases h
      exact ⟨rfl, rfl⟩
  | .float pos v text, e', h => by
      cases h
      exact ⟨rfl, rfl⟩
  | .bool pos v, e', h => by
      cases h
      exact ⟨rfl, rfl⟩
  | .access pos path, e', h => by
      simp only [Expr.check, bind_eq_ok, pure_eq_ok] at h
      obtain ⟨t, ht, rfl⟩ := h
      exact ⟨rfl, Path.hasType_of_check ht⟩

/-- The check changes nothing of an expression but its notes. -/
theorem Expr.map_pos_of_check {scope : Scope} :
    ∀ {e : Expr Position} {e' : Expr Note}, e.check scope = .ok e' → e'.map Note.pos = e
  | .ternary pos test yes no, e', h => by
      simp only [Expr.check, bind_eq_ok, ite_illTyped_eq_ok, pure_eq_ok] at h
      obtain ⟨test', htest, yes', hyes, no', hno, _, _, rfl⟩ := h
      rw [Expr.map, map_pos_of_check htest, map_pos_of_check hyes, map_pos_of_check hno]
  | .binary pos op left right, e', h => by
      simp only [Expr.check, bind_eq_ok] at h
      obtain ⟨left', hleft, right', hright, h⟩ := h
      split at h
      · cases h
      · cases h
        rw [Expr.map, map_pos_of_check hleft, map_pos_of_check hright]
  | .unary pos op operand, e', h => by
      simp only [Expr.check, bind_eq_ok, ite_else_illTyped_eq_ok, pure_eq_ok] at h
      obtain ⟨operand', hoperand, _, rfl⟩ := h
      rw [Expr.map, map_pos_of_check hoperand]
  | .cast pos target operand, e', h => by
      simp only [Expr.check, bind_eq_ok, ite_illTyped_eq_ok] at h
      obtain ⟨operand', hoperand, _, h⟩ := h
      split at h
      · cases h
      · cases h
        rw [Expr.map, map_pos_of_check hoperand]
  | .int pos v text, e', h => by
      cases h
      rfl
  | .float pos v text, e', h => by
      cases h
      rfl
  | .bool pos v, e', h => by
      cases h
      rfl
  | .access pos path, e', h => by
      simp only [Expr.check, bind_eq_ok, pure_eq_ok] at h
      obtain ⟨t, _, rfl⟩ := h
      rfl

/-! ## Statements

The check of a statement gives a scope for the statements behind it, and this is always `Stmt.after`
of the statement that it gives, so the scope never has to be carried beside the tree.
-/

/-- The initial value of a variable, checked. -/
lemma init_of_checkInit {scope : Scope} {pos : Position} {name : String} {t : Ty}
    {init : Option (Expr Position)} {init' : Option (Expr Note)}
    (h : checkInit scope pos name t init = .ok init') :
    init'.map (·.map Note.pos) = init ∧
      ∀ e, init' = some e → e.WellTyped scope ∧ e.type = t := by
  cases init with
  | none =>
      cases h
      simp
  | some e =>
      simp only [checkInit, bind_eq_ok, ite_else_illTyped_eq_ok, pure_eq_ok] at h
      obtain ⟨e', he, hequal, rfl⟩ := h
      refine ⟨by rw [Option.map_some, Expr.map_pos_of_check he], ?_⟩
      rintro _ ⟨⟩
      exact ⟨Expr.wellTyped_of_check he, Ty.eq_of_equal hequal⟩

mutual

/-- **A checked statement is well-typed**, and the check finds the scope behind it. -/
theorem Stmt.wellTyped_of_check {scope : Scope} {start : Nat} :
    ∀ {s : Stmt Position} {s' : Stmt Note} {next : Scope},
      Stmt.check scope start s = .ok (s', next) → s'.WellTyped scope start ∧ next = s'.after scope
  | .block pos body, s', next, h => by
      simp only [Stmt.check, bind_eq_ok, pure_eq_ok, Prod.mk.injEq] at h
      obtain ⟨body', hbody, rfl, rfl⟩ := h
      exact ⟨⟨rfl, Stmt.allWellTyped_of_checkAll hbody⟩, rfl⟩
  | .declare pos type name init, s', next, h => by
      rw [Stmt.check] at h
      split at h
      · cases h
      · rename_i t ht
        simp only [ite_illTyped_eq_ok, bind_eq_ok, pure_eq_ok, Prod.mk.injEq] at h
        obtain ⟨hunder, hsince, init', hinit, rfl, rfl⟩ := h
        exact ⟨⟨rfl, ht, by simpa using hunder, by simpa using hsince,
          (init_of_checkInit hinit).2⟩, rfl⟩
  | .assign pos targetPos target op value, s', next, h => by
      simp only [Stmt.check, bind_eq_ok, ite_else_illTyped_eq_ok, pure_eq_ok, Prod.mk.injEq] at h
      obtain ⟨targetType, htype, value', hvalue, _, htarget, stored, hstored, hequal, rfl, rfl⟩ := h
      exact ⟨⟨rfl, rfl, Path.hasType_of_check htype, Path.assignable_of_checkTarget htarget,
        Expr.wellTyped_of_check hvalue, AssignOp.typed_of_check hstored hequal⟩, rfl⟩
  | .when pos test body, s', next, h => by
      simp only [Stmt.check, bind_eq_ok, ite_illTyped_eq_ok, pure_eq_ok, Prod.exists,
        Prod.mk.injEq] at h
      obtain ⟨test', htest, hbool, body', _, hbody, rfl, rfl⟩ := h
      exact ⟨⟨rfl, Expr.wellTyped_of_check htest, Ty.kind_eq_boolean.mp (by simpa using hbool),
        (Stmt.wellTyped_of_check hbody).1⟩, rfl⟩
  | .branch pos test yes no, s', next, h => by
      simp only [Stmt.check, bind_eq_ok, ite_illTyped_eq_ok, pure_eq_ok, Prod.exists,
        Prod.mk.injEq] at h
      obtain ⟨test', htest, hbool, yes', _, hyes, no', _, hno, rfl, rfl⟩ := h
      exact ⟨⟨rfl, Expr.wellTyped_of_check htest, Ty.kind_eq_boolean.mp (by simpa using hbool),
        (Stmt.wellTyped_of_check hyes).1, (Stmt.wellTyped_of_check hno).1⟩, rfl⟩

/-- Checked statements are well-typed in turn. -/
theorem Stmt.allWellTyped_of_checkAll {scope : Scope} {start : Nat} :
    ∀ {ss : List (Stmt Position)} {ss' : List (Stmt Note)},
      Stmt.checkAll scope start ss = .ok ss' → Stmt.AllWellTyped scope start ss'
  | [], ss', h => by
      cases h
      trivial
  | s :: ss, ss', h => by
      simp only [Stmt.checkAll, bind_eq_ok, pure_eq_ok, Prod.exists] at h
      obtain ⟨s', next, hs, ss', hss, rfl⟩ := h
      obtain ⟨hwell, rfl⟩ := Stmt.wellTyped_of_check hs
      exact ⟨hwell, Stmt.allWellTyped_of_checkAll hss⟩

end

mutual

/-- The check changes nothing of a statement but its notes. -/
theorem Stmt.map_pos_of_check {scope : Scope} {start : Nat} :
    ∀ {s : Stmt Position} {s' : Stmt Note} {next : Scope},
      Stmt.check scope start s = .ok (s', next) → Stmt.map Note.pos s' = s
  | .block pos body, s', next, h => by
      simp only [Stmt.check, bind_eq_ok, pure_eq_ok, Prod.mk.injEq] at h
      obtain ⟨body', hbody, rfl, rfl⟩ := h
      rw [Stmt.map, Stmt.mapAll_pos_of_checkAll hbody]
  | .declare pos type name init, s', next, h => by
      rw [Stmt.check] at h
      split at h
      · cases h
      · simp only [ite_illTyped_eq_ok, bind_eq_ok, pure_eq_ok, Prod.mk.injEq] at h
        obtain ⟨_, _, init', hinit, rfl, rfl⟩ := h
        rw [Stmt.map, (init_of_checkInit hinit).1]
  | .assign pos targetPos target op value, s', next, h => by
      simp only [Stmt.check, bind_eq_ok, ite_else_illTyped_eq_ok, pure_eq_ok, Prod.mk.injEq] at h
      obtain ⟨_, _, value', hvalue, _, _, _, _, _, rfl, rfl⟩ := h
      rw [Stmt.map, Expr.map_pos_of_check hvalue]
  | .when pos test body, s', next, h => by
      simp only [Stmt.check, bind_eq_ok, ite_illTyped_eq_ok, pure_eq_ok, Prod.exists,
        Prod.mk.injEq] at h
      obtain ⟨test', htest, _, body', _, hbody, rfl, rfl⟩ := h
      rw [Stmt.map, Expr.map_pos_of_check htest, Stmt.map_pos_of_check hbody]
  | .branch pos test yes no, s', next, h => by
      simp only [Stmt.check, bind_eq_ok, ite_illTyped_eq_ok, pure_eq_ok, Prod.exists,
        Prod.mk.injEq] at h
      obtain ⟨test', htest, _, yes', _, hyes, no', _, hno, rfl, rfl⟩ := h
      rw [Stmt.map, Expr.map_pos_of_check htest, Stmt.map_pos_of_check hyes,
        Stmt.map_pos_of_check hno]

/-- The check changes nothing of statements but their notes. -/
theorem Stmt.mapAll_pos_of_checkAll {scope : Scope} {start : Nat} :
    ∀ {ss : List (Stmt Position)} {ss' : List (Stmt Note)},
      Stmt.checkAll scope start ss = .ok ss' → Stmt.mapAll Note.pos ss' = ss
  | [], ss', h => by
      cases h
      rfl
  | s :: ss, ss', h => by
      simp only [Stmt.checkAll, bind_eq_ok, pure_eq_ok, Prod.exists] at h
      obtain ⟨s', next, hs, ss', hss, rfl⟩ := h
      rw [Stmt.mapAll, Stmt.map_pos_of_check hs, Stmt.mapAll_pos_of_checkAll hss]

end

/-- **A checked program is well-typed** where the names of its root are visible, and it is the
program that was read. -/
theorem Program.wellTyped_of_check {root : Scope} {p : Program Position} {p' : Program Note}
    (h : p.check root = .ok p') :
    Stmt.AllWellTyped root root.length p'.body ∧ Stmt.mapAll Note.pos p'.body = p.body := by
  simp only [Program.check, bind_eq_ok, pure_eq_ok] at h
  obtain ⟨body, hbody, rfl⟩ := h
  exact ⟨Stmt.allWellTyped_of_checkAll hbody, Stmt.mapAll_pos_of_checkAll hbody⟩

end Cellular
