import Cellular.Proofs.Rule.WellTyped
import Mathlib.Data.List.Nodup

/-!
# Lexical scoping

The check hands scopes from statement to statement.  What comes out is the usual rule of block
structure, which can be said without any handing on: a place sees the declarations in front of it in
its own block and in the blocks around it.

* `Stmt.Occurs` relates a list of statements to the statements inside it and to what stands in front
  of these.
* `Stmt.bindings` are the declarations among some statements; `Scope.behind` is a scope with these.
* `Stmt.AllWellTyped.occurs` finds the scope of every statement that occurs.
* `Scope.find?_eq_some_iff` says which binding of a name is found: the innermost one.
* `Ty.Valid` are the types in which nothing is invalid; valid scopes give valid types only
  (`Expr.WellTyped.valid`).
* `Program.check_scopes` puts these together.

The scope at a place is a list with the innermost binding in front, so that the declarations of
statements come out of it in reverse.  `Scope.behind` says this once.  The induction that finds the
scope of a statement is on the derivation of `Stmt.Occurs`: it walks down from the whole body and
drops, at each block, the statements behind the place, which the place cannot see.
-/

namespace Cellular

/-! ## Places of statements

A place is given by the way to it, not by a number: the derivation of `Stmt.Occurs` says through
which statements it leads and what it leaves in front.
-/

/-- `Occurs body before s`: the statement `s` stands somewhere in the statements `body`, and `before`
are the statements in front of it in textual order: first those of the outermost block, last those
of its own.  A branch without braces is a block of one statement. -/
inductive Stmt.Occurs {α : Type} : List (Stmt α) → List (Stmt α) → Stmt α → Prop where
  | here {front : List (Stmt α)} {s : Stmt α} {back : List (Stmt α)} :
      Occurs (front ++ s :: back) front s
  | block {front : List (Stmt α)} {n : α} {body back before : List (Stmt α)} {s : Stmt α}
      (h : Occurs body before s) : Occurs (front ++ .block n body :: back) (front ++ before) s
  | when {front : List (Stmt α)} {n : α} {test : Expr α} {body : Stmt α}
      {back before : List (Stmt α)} {s : Stmt α} (h : Occurs [body] before s) :
      Occurs (front ++ .when n test body :: back) (front ++ before) s
  | yes {front : List (Stmt α)} {n : α} {test : Expr α} {yes no : Stmt α}
      {back before : List (Stmt α)} {s : Stmt α} (h : Occurs [yes] before s) :
      Occurs (front ++ .branch n test yes no :: back) (front ++ before) s
  | no {front : List (Stmt α)} {n : α} {test : Expr α} {yes no : Stmt α}
      {back before : List (Stmt α)} {s : Stmt α} (h : Occurs [no] before s) :
      Occurs (front ++ .branch n test yes no :: back) (front ++ before) s

/-- The expressions of a statement itself, without those of the statements inside it.  The target of
an assignment is one of them. -/
def Stmt.exprs {α : Type} : Stmt α → List (Expr α)
  | .declare _ _ _ init => init.toList
  | .assign _ m target _ value => [.access m target, value]
  | .when _ test _ => [test]
  | .branch _ test _ _ => [test]
  | .block .. => []

/-- All nodes of the expressions of a statement. -/
def Stmt.nodes {α : Type} (s : Stmt α) : List (Expr α) := s.exprs.flatMap Expr.parts

/-! ## Declarations

Only a declaration changes a scope, and only for the statements behind it in the same block.  What
is declared inside a block, or in a branch, is gone behind it.
-/

/-- The variable that a statement declares, if it is a declaration of a known type. -/
def Stmt.binding? {α : Type} : Stmt α → Option Binding
  | .declare _ type name _ => type.type?.map fun t => ⟨name, t, true⟩
  | _ => none

/-- The variables that some statements declare directly, in textual order. -/
def Stmt.bindings {α : Type} (ss : List (Stmt α)) : List Binding := ss.filterMap Stmt.binding?

/-- A scope extended, in textual order, with what some statements declare directly. -/
def Scope.behind {α : Type} (scope : Scope) (ss : List (Stmt α)) : Scope :=
  (Stmt.bindings ss).reverse ++ scope

lemma Stmt.bindings_append {α : Type} (ss ts : List (Stmt α)) :
    Stmt.bindings (ss ++ ts) = Stmt.bindings ss ++ Stmt.bindings ts :=
  List.filterMap_append

lemma Scope.behind_append {α : Type} (scope : Scope) (ss ts : List (Stmt α)) :
    scope.behind (ss ++ ts) = (scope.behind ss).behind ts := by
  simp [Scope.behind, Stmt.bindings_append]

/-- A well-typed declaration declares a variable of the type in its note. -/
lemma Stmt.WellTyped.after_eq_behind {scope : Scope} {start : Nat} {s : Stmt Note}
    (h : s.WellTyped scope start) : s.after scope = scope.behind [s] := by
  cases s with
  | declare n type name init =>
      simp [Stmt.after, Scope.behind, Stmt.bindings, Stmt.binding?, h.2.1, Scope.declare]
  | block | assign | when | branch => rfl

/-- A statement between others is well-typed where the declarations in front of it are visible. -/
lemma Stmt.AllWellTyped.at {start : Nat} {s : Stmt Note} {back : List (Stmt Note)} :
    ∀ {front : List (Stmt Note)} {scope : Scope},
      Stmt.AllWellTyped scope start (front ++ s :: back) →
        s.WellTyped (scope.behind front) start
  | [], _, h => h.1
  | t :: front, scope, h => by
      have hrest := Stmt.AllWellTyped.at h.2
      rw [h.1.after_eq_behind, ← Scope.behind_append] at hrest
      exact hrest

/-- **Where a statement occurs, it is well-typed with the declarations in front of it.**  One step
goes into one statement; a new block starts there. -/
lemma Stmt.AllWellTyped.occurs {body before : List (Stmt Note)} {s : Stmt Note}
    (hs : Stmt.Occurs body before s) :
    ∀ {scope : Scope} {start : Nat}, Stmt.AllWellTyped scope start body →
      ∃ start', s.WellTyped (scope.behind before) start' := by
  induction hs with
  | here => exact fun h => ⟨_, h.at⟩
  | block _ ih =>
      intro scope start h
      rw [Scope.behind_append]
      exact ih h.at.2
  | when _ ih =>
      intro scope start h
      rw [Scope.behind_append]
      exact ih ⟨h.at.2.2.2, trivial⟩
  | yes _ ih =>
      intro scope start h
      rw [Scope.behind_append]
      exact ih ⟨h.at.2.2.2.1, trivial⟩
  | no _ ih =>
      intro scope start h
      rw [Scope.behind_append]
      exact ih ⟨h.at.2.2.2.2, trivial⟩

lemma Stmt.WellTyped.scope_eq {scope : Scope} {start : Nat} {s : Stmt Note}
    (h : s.WellTyped scope start) : s.note.scope = scope := by
  cases s <;> exact h.1

/-- All nodes of a well-typed statement are well-typed where it stands; the initial value of a
variable does not see the variable. -/
lemma Stmt.WellTyped.nodes {scope : Scope} {start : Nat} {s : Stmt Note}
    (h : s.WellTyped scope start) : ∀ e ∈ s.nodes, e.WellTyped scope := by
  have hexprs : ∀ e ∈ s.exprs, e.WellTyped scope := by
    cases s with
    | block => simp [Stmt.exprs]
    | declare n type name init =>
        intro e he
        exact (h.2.2.2.2 e (Option.mem_toList.mp he)).1
    | assign n m target op value =>
        simp only [Stmt.exprs, List.forall_mem_cons]
        exact ⟨⟨h.2.1, h.2.2.1⟩, h.2.2.2.2.1, fun _ hmem => absurd hmem List.not_mem_nil⟩
    | when n test body => simpa [Stmt.exprs] using h.2.1
    | branch n test yes no => simpa [Stmt.exprs] using h.2.1
  intro e he
  obtain ⟨top, htop, hpart⟩ := List.mem_flatMap.mp he
  exact (hexprs top htop).parts e hpart

lemma Expr.WellTyped.scope_eq {scope : Scope} {e : Expr Note} (h : e.WellTyped scope) :
    e.note.scope = scope := by
  cases e <;> exact h.1

/-! ## Names declared twice

The check looks a new name up among the bindings above the depth at which the block started.  These
are the declarations of the block so far, so the induction goes through a block with the statements
already seen in front.
-/

/-- In a block that started with `scope`, the declarations so far are the links above `scope`. -/
lemma Scope.declaredSince_behind {α : Type} (scope : Scope) (front : List (Stmt α)) (name : String) :
    (scope.behind front).declaredSince scope.length name
      = (Stmt.bindings front).any fun b => b.name = name && b.assignable := by
  have hcount : (scope.behind front).length - scope.length = (Stmt.bindings front).length := by
    simp [Scope.behind]
  rw [Scope.declaredSince, hcount, Scope.behind, ← List.length_reverse, List.take_left,
    List.any_reverse]

lemma Stmt.assignable_of_mem_bindings {α : Type} {ss : List (Stmt α)} {b : Binding}
    (h : b ∈ Stmt.bindings ss) : b.assignable = true := by
  obtain ⟨s, -, hs⟩ := List.mem_filterMap.mp h
  cases s with
  | declare n type name init =>
      obtain ⟨t, -, rfl⟩ := Option.map_eq_some_iff.mp hs
      rfl
  | block | assign | when | branch => cases hs

/-- No well-typed block declares a name twice.  The induction is on the statements behind `front`,
those already seen. -/
lemma Stmt.AllWellTyped.nodup_from {scope : Scope} :
    ∀ (front : List (Stmt Note)) {body : List (Stmt Note)},
      Stmt.AllWellTyped (scope.behind front) scope.length body →
        ((Stmt.bindings front).map Binding.name).Nodup →
          ((Stmt.bindings (front ++ body)).map Binding.name).Nodup
  | front, [], _, hfront => by rwa [List.append_nil]
  | front, s :: body, ⟨hs, hbody⟩, hfront => by
      rw [hs.after_eq_behind, ← Scope.behind_append] at hbody
      have hnext := Stmt.AllWellTyped.nodup_from (front ++ [s]) hbody
      rw [List.append_assoc] at hnext
      apply hnext
      cases s with
      | declare n type name init =>
          obtain ⟨-, htype, -, hnew, -⟩ := hs
          rw [Scope.declaredSince_behind, List.any_eq_false] at hnew
          have hone : Stmt.bindings [Stmt.declare n type name init] = [⟨name, n.type, true⟩] := by
            simp [Stmt.bindings, Stmt.binding?, htype]
          rw [Stmt.bindings_append, hone, List.map_append, List.nodup_append]
          refine ⟨hfront, List.nodup_singleton _, ?_⟩
          rintro _ hx _ hy rfl
          obtain ⟨b, hb, hbname⟩ := List.mem_map.mp hx
          rw [List.map_cons, List.map_nil, List.mem_singleton] at hy
          exact hnew b hb (by simp [hbname.trans hy, Stmt.assignable_of_mem_bindings hb])
      | block | assign | when | branch =>
          rw [Stmt.bindings_append, show Stmt.bindings [_] = [] from rfl, List.append_nil]
          exact hfront

/-- **No well-typed block declares a name twice.** -/
lemma Stmt.AllWellTyped.nodup {scope : Scope} {body : List (Stmt Note)}
    (h : Stmt.AllWellTyped scope scope.length body) :
    ((Stmt.bindings body).map Binding.name).Nodup :=
  Stmt.AllWellTyped.nodup_from [] h List.nodup_nil

/-! ## Names that are found

A binding is found together with its slot, the number of bindings below it.  The slot tells it apart
from bindings of the same name that it hides.
-/

/-- **The binding that is found is the innermost one of the name.** -/
lemma Scope.find?_eq_some_iff {scope : Scope} {name : String} {b : Binding} {slot : Slot} :
    scope.find? name = some (b, slot) ↔
      ∃ inner outer, scope = inner ++ b :: outer ∧ slot = outer.length ∧ b.name = name ∧
        ∀ c ∈ inner, c.name ≠ name := by
  induction scope with
  | nil => simp [Scope.find?]
  | cons c scope ih =>
      rw [Scope.find?]
      split_ifs with hname
      · constructor
        · intro h
          simp only [Option.some.injEq, Prod.mk.injEq] at h
          obtain ⟨rfl, rfl⟩ := h
          exact ⟨[], scope, rfl, rfl, hname, by simp⟩
        · rintro ⟨inner, outer, hsplit, hslot, hb, hinner⟩
          cases inner with
          | nil =>
              obtain ⟨rfl, rfl⟩ := List.cons.inj hsplit
              rw [hslot]
          | cons d inner =>
              obtain ⟨rfl, -⟩ := List.cons.inj hsplit
              exact absurd hname (hinner c List.mem_cons_self)
      · rw [ih]
        constructor
        · rintro ⟨inner, outer, rfl, hslot, hb, hinner⟩
          refine ⟨c :: inner, outer, rfl, hslot, hb, ?_⟩
          simpa [hname] using hinner
        · rintro ⟨inner, outer, hsplit, hslot, hb, hinner⟩
          cases inner with
          | nil =>
              obtain ⟨rfl, -⟩ := List.cons.inj hsplit
              exact absurd hb hname
          | cons d inner =>
              obtain ⟨-, rfl⟩ := List.cons.inj hsplit
              exact ⟨inner, outer, rfl, hslot, hb, (List.forall_mem_cons.mp hinner).2⟩

/-! ## Valid types

A type may be invalid, which is what unknown names of types are.  If the names that a program starts
with have valid types, so has everything in it.
-/

mutual

/-- Nothing in the type is invalid: not the type itself, and no property at any depth. -/
def Ty.Valid : Ty → Prop
  | .invalid => False
  | .struct ps => Ty.AllValid ps
  | .bool | .float | .int | .other _ => True

/-- Properties of valid types. -/
def Ty.AllValid : List (String × Ty) → Prop
  | [] => True
  | (_, t) :: ps => t.Valid ∧ Ty.AllValid ps

end

lemma Ty.Valid.kind_ne {t : Ty} (h : t.Valid) : t.kind ≠ .invalid := by
  cases t with
  | invalid => exact absurd h (by simp [Ty.Valid])
  | bool | float | int | struct | other => simp [Ty.kind]

lemma Ty.AllValid.lookup {name : String} {t : Ty} :
    ∀ {ps : List (String × Ty)}, Ty.AllValid ps → ps.lookup name = some t → t.Valid
  | [], _, h => by cases h
  | (n, u) :: ps, hps, h => by
      rw [Ty.AllValid] at hps
      rw [List.lookup_cons] at h
      split at h
      · cases h
        exact hps.1
      · exact Ty.AllValid.lookup hps.2 h

/-- The properties of a valid type are valid, at any depth. -/
lemma Ty.Valid.follow {u : Ty} :
    ∀ {names : List String} {t : Ty}, t.Valid → t.follow? names = some u → u.Valid
  | [], t, ht, h => by
      cases h
      exact ht
  | name :: more, t, ht, h => by
      rw [Ty.follow?] at h
      split at h
      · cases h
      · rename_i v hv
        refine Ty.Valid.follow ?_ h
        cases t with
        | struct ps =>
            rw [Ty.Valid] at ht
            exact ht.lookup hv
        | invalid | bool | float | int | other => cases hv

lemma TypeName.valid_of_type? {name : TypeName} {t : Ty} (h : name.type? = some t) : t.Valid := by
  cases name <;> cases h <;> simp [Ty.Valid]

/-- Operators on valid types have results of valid types. -/
lemma BinaryOp.Typed.valid {op : BinaryOp} {t u : Ty} (h : op.Typed t u) (ht : t.Valid) :
    u.Valid := by
  cases h with
  | arithmetic _ _ => exact ht
  | or | and | eq | ne | order | mod => simp [Ty.Valid]

/-- Where all names have valid types, all expressions do. -/
lemma Expr.WellTyped.valid {scope : Scope} (hscope : ∀ b ∈ scope, b.type.Valid) :
    ∀ {e : Expr Note}, e.WellTyped scope → e.type.Valid := by
  intro e
  induction e with
  | ternary n test yes no _ ihyes _ =>
      rintro ⟨-, -, hyes, -, -, htype, -⟩
      rw [Expr.type, Expr.note, ← htype]
      exact ihyes hyes
  | binary n op left right ihleft _ =>
      rintro ⟨-, hleft, -, -, htyped⟩
      exact htyped.valid (ihleft hleft)
  | unary n op operand ih =>
      rintro ⟨-, hoperand, htype, -⟩
      rw [Expr.type, Expr.note, ← htype]
      exact ih hoperand
  | cast n target operand _ =>
      rintro ⟨-, -, -, htarget⟩
      exact TypeName.valid_of_type? htarget
  | int n v text =>
      rintro ⟨-, htype⟩
      rw [Expr.type, Expr.note, htype]
      simp [Ty.Valid]
  | float n v text =>
      rintro ⟨-, htype⟩
      rw [Expr.type, Expr.note, htype]
      simp [Ty.Valid]
  | bool n v =>
      rintro ⟨-, htype⟩
      rw [Expr.type, Expr.note, htype]
      simp [Ty.Valid]
  | access n path =>
      rintro ⟨-, b, slot, hfind, hfollow⟩
      obtain ⟨inner, outer, rfl, -, -, -⟩ := Scope.find?_eq_some_iff.mp hfind
      exact (hscope b (by simp)).follow hfollow

/-- Declarations have valid types. -/
lemma Scope.valid_behind {α : Type} {scope : Scope} (h : ∀ b ∈ scope, b.type.Valid)
    (ss : List (Stmt α)) : ∀ b ∈ scope.behind ss, b.type.Valid := by
  intro b hb
  rcases List.mem_append.mp hb with hb | hb
  · obtain ⟨s, -, hs⟩ := List.mem_filterMap.mp (List.mem_reverse.mp hb)
    cases s with
    | declare n type name init =>
        obtain ⟨t, ht, rfl⟩ := Option.map_eq_some_iff.mp hs
        exact TypeName.valid_of_type? ht
    | block | assign | when | branch => cases hs
  · exact h b hb

/-! ## Programs

The theorem below speaks of the tree that the check gives and of nothing that the check does.
-/

/-- **Lexical scoping.**  A program that passes the check comes back with notes.  Each statement and
each node of its expressions has the root scope extended, in textual order, with the declarations in
front of it in its own block and in the blocks around it.  No block declares a name twice, and each
name stands for its innermost binding.  Where the root has valid types only, every expression has a
valid type. -/
theorem Program.check_scopes {root : Scope} {p : Program Position} {p' : Program Note}
    (h : p.check root = .ok p') :
    Stmt.mapAll Note.pos p'.body = p.body ∧
    (∀ before s, Stmt.Occurs p'.body before s →
      s.note.scope = root.behind before ∧ ∀ e ∈ s.nodes, e.note.scope = root.behind before) ∧
    ((Stmt.bindings p'.body).map Binding.name).Nodup ∧
    (∀ before n body, Stmt.Occurs p'.body before (.block n body) →
      ((Stmt.bindings body).map Binding.name).Nodup) ∧
    (∀ before s, Stmt.Occurs p'.body before s → ∀ n path, .access n path ∈ s.nodes →
      ∃ inner b outer, root.behind before = inner ++ b :: outer ∧
        n.scope.find? path.root = some (b, outer.length) ∧ b.name = path.root ∧
        (∀ c ∈ inner, c.name ≠ path.root) ∧ b.type.follow? path.rest = some n.type) ∧
    ((∀ b ∈ root, b.type.Valid) → ∀ before s, Stmt.Occurs p'.body before s →
      ∀ e ∈ s.nodes, e.type.kind ≠ .invalid) := by
  obtain ⟨htyped, hsame⟩ := Program.wellTyped_of_check h
  refine ⟨hsame, ?_, htyped.nodup, ?_, ?_, ?_⟩
  · intro before s hs
    obtain ⟨start, hwell⟩ := htyped.occurs hs
    exact ⟨hwell.scope_eq, fun e he => (hwell.nodes e he).scope_eq⟩
  · intro before n body hs
    obtain ⟨start, hwell⟩ := htyped.occurs hs
    exact hwell.2.nodup
  · intro before s hs n path hmem
    obtain ⟨start, hwell⟩ := htyped.occurs hs
    obtain ⟨hscope, b, slot, hfind, hfollow⟩ := hwell.nodes _ hmem
    obtain ⟨inner, outer, hsplit, rfl, hname, hinner⟩ := Scope.find?_eq_some_iff.mp hfind
    exact ⟨inner, b, outer, hsplit, hscope ▸ hfind, hname, hinner, hfollow⟩
  · intro hvalid before s hs e he
    obtain ⟨start, hwell⟩ := htyped.occurs hs
    exact ((hwell.nodes e he).valid (Scope.valid_behind hvalid before)).kind_ne

/-- A variable that is declared again inside a block, where its initial value still is the outer
one. -/
def Program.shadowing : Program Position :=
  { body := [.declare {} .int "a" none,
      .block {} [.declare {} .bool "a" (some (.binary {} .eq (.access {} ⟨"a", []⟩) (.int {} 1 "1"))),
        .assign {} {} ⟨"cell", ["alive"]⟩ .set (.access {} ⟨"a", []⟩)]] }

/-- A root scope with a cell of one field. -/
def Scope.oneField : Scope := [⟨"cell", .struct [("alive", .bool)], false⟩]

/-- The assignment inside the block sees both variables of one name, the inner one first. -/
theorem Program.check_scopes_shadowing :
    ∃ p', Program.shadowing.check Scope.oneField = .ok p' ∧
      ∃ before s, Stmt.Occurs p'.body before s ∧ s.exprs.length = 2 ∧
        s.note.scope.map Binding.name = ["a", "a", "cell"] ∧
        s.note.scope = Scope.oneField.behind before := by
  obtain ⟨p', h, before, s, hs, hexprs, hnames⟩ :
      ∃ p', Program.shadowing.check Scope.oneField = .ok p' ∧
        ∃ before s, Stmt.Occurs p'.body before s ∧ s.exprs.length = 2 ∧
          s.note.scope.map Binding.name = ["a", "a", "cell"] :=
    ⟨_, rfl, _, _, @Stmt.Occurs.block _ [_] _ _ [] _ _ (@Stmt.Occurs.here _ [_] _ []), rfl, rfl⟩
  exact ⟨p', h, before, s, hs, hexprs, hnames, ((Program.check_scopes h).2.1 before s hs).1⟩

end Cellular
