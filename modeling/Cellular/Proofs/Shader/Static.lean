import Cellular.Shader.Code
import Cellular.Source.Lexer
import Mathlib.Tactic.Common

/-!
# Static rules of shaders

What the shading language demands of a shader before it runs, for the part of the language that
generated shaders use.  There are no implicit conversions: operands, initial values, assigned values,
arguments and results have the very type that is wanted.  A name means its innermost declaration,
which stands in front of its use.

* `ValueType` is the type of a value, `VarTypes` the variables in scope, the innermost first.
* `Globals` are the variables and functions declared so far outside of all functions.
* `Term.type?` is the type of an expression, `Code.check` checks a statement.
* `Function.checks` checks a function definition where earlier ones are known, and `Shader.check` a
  whole shader.

An expression also has to be written with the parentheses it needs: operands bind tighter than the
operator between them (`Term.rank`), so that its text is read as its tree.  This is a rule about
trees that the printer relies on.  It prints a tree as it is, without parentheses of its own, and
the tree holds them as nodes.
-/

namespace Cellular.Shader

/-! ## Types

There are more types of values than can be written in declarations of variables: textures and the
absence of a value are among them.
-/

/-- The types of single numbers and truth values. -/
inductive Scalar where
  | bool
  | int
  | uint
  | float
deriving Repr, DecidableEq, Inhabited

/-- The types of values. -/
inductive ValueType where
  | void
  | scalar (s : Scalar)
  | vector (s : Scalar) (size : Nat)
  | usampler2D
  | sampler2DArray
deriving Repr, DecidableEq, Inhabited

/-- The type that is written in a declaration. -/
def GType.value : GType → ValueType
  | .void => .void
  | .bool => .scalar .bool
  | .int => .scalar .int
  | .float => .scalar .float
  | .ivec2 => .vector .int 2
  | .ivec4 => .vector .int 4
  | .uvec4 => .vector .uint 4
  | .usampler2D => .usampler2D
  | .sampler2DArray => .sampler2DArray

/-- The types that variables of functions may have: there are no variables without a value, and
textures are given from outside. -/
def GType.isLocal : GType → Bool
  | .void | .usampler2D | .sampler2DArray => false
  | _ => true

/-- Whether values can be added and compared. -/
def Scalar.isNumeric : Scalar → Bool
  | .bool => false
  | _ => true

/-- Whether values are words of bits. -/
def Scalar.isInteger : Scalar → Bool
  | .int | .uint => true
  | _ => false

/-! ## Operators

Ranks are those of the language.  An operand on the right needs a lower rank than its operator, one
on the left may have the same.
-/

/-- The type of `l op r` for operands of one scalar type. -/
def Op.onScalars (op : Op) (s : Scalar) : Option Scalar :=
  match op with
  | .rule .add | .rule .sub | .rule .mul | .rule .div => if s.isNumeric then some s else none
  | .rule .mod | .bitAnd | .bitOr | .shiftLeft | .shiftRight =>
    if s.isInteger then some s else none
  | .rule .lt | .rule .le | .rule .gt | .rule .ge => if s.isNumeric then some .bool else none
  | .rule .eq | .rule .ne => some .bool
  | .rule .and | .rule .or => if s = .bool then some .bool else none
  | .rule (.unknown _) => none

/-- The type of `l op r`. -/
def Op.type? (op : Op) : ValueType → ValueType → Option ValueType
  | .scalar s, .scalar t => if s = t then (op.onScalars s).map .scalar else none
  | _, _ => none

/-- Whether a unary operator applies to a scalar type, which is then the type of its result. -/
def Sign.appliesTo : Sign → Scalar → Bool
  | .rule .not, s => s = .bool
  | .rule .neg, s => s.isNumeric
  | .rule (.unknown _), _ => false
  | .complement, s => s.isInteger

/-- The type of a unary operator on an operand. -/
def Sign.type? (op : Sign) : ValueType → Option ValueType
  | .scalar s => if op.appliesTo s then some (.scalar s) else none
  | _ => none

/-- The type that an assignment stores.  Only arithmetic combines with an assignment. -/
def storedType? (op : AssignOp) (old new : ValueType) : Option ValueType :=
  match op with
  | .set => some new
  | .update b => if b ∈ AssignOp.arithmetic then (Op.rule b).type? old new else none
  | .unknown _ => none

/-- The rank of a binary operator; the lower binds tighter.  Operators of one rank associate to the
left. -/
def Op.rank : Op → Nat
  | .rule .mul | .rule .div | .rule .mod => 4
  | .rule .add | .rule .sub => 5
  | .shiftLeft | .shiftRight => 6
  | .rule .lt | .rule .le | .rule .gt | .rule .ge => 7
  | .rule .eq | .rule .ne => 8
  | .bitAnd => 9
  | .bitOr => 11
  | .rule .and => 12
  | .rule .or => 14
  | .rule (.unknown _) => 16

/-- The rank of the outermost operator of an expression as it is written; names, literals, calls,
components and what stands in parentheses have rank 1.  A negative number is written with a sign. -/
def Term.rank : Term → Nat
  | .int n => if n < 0 then 3 else 1
  | .unary .. => 3
  | .binary op .. => op.rank
  | .ternary .. => 15
  | _ => 1

/-! ## Names

A name is looked for among the variables first, and then outside of all functions.  Constructors and
functions of the language can be redeclared by neither.
-/

/-- What a name outside of all functions stands for: a variable, which code may or may not write, or
a function. -/
inductive Entity where
  | var (type : ValueType) (writable : Bool)
  | function (params : List (Passing × ValueType)) (result : ValueType)
deriving Repr, DecidableEq, Inhabited

/-- The names declared outside of all functions, the last one first. -/
abbrev Globals := List (String × Entity)

/-- The variables of a function that are in scope, the innermost first. -/
abbrev VarTypes := List (String × ValueType)

/-- Everything in scope at one place. -/
structure Context where
  globals : Globals
  locals : VarTypes

/-- The type of the variable that a name stands for, and whether code may write it. -/
def Context.var? (ctx : Context) (name : String) : Option (ValueType × Bool) :=
  match ctx.locals.lookup name with
  | some t => some (t, true)
  | none =>
    match ctx.globals.lookup name with
    | some (.var t writable) => some (t, writable)
    | _ => none

/-- The types that a call may construct values of. -/
def constructor? : String → Option ValueType
  | "bool" => some (.scalar .bool)
  | "int" => some (.scalar .int)
  | "float" => some (.scalar .float)
  | "ivec2" => some (.vector .int 2)
  | "ivec3" => some (.vector .int 3)
  | "ivec4" => some (.vector .int 4)
  | "uvec4" => some (.vector .uint 4)
  | _ => none

/-- The number of components that a value gives to a constructor. -/
def ValueType.components? : ValueType → Option Nat
  | .scalar _ => some 1
  | .vector _ n => some n
  | _ => none

/-- Whether a value of a type can be constructed from the arguments: a scalar from a scalar, a vector
from one scalar or from as many components as it has. -/
def ValueType.constructs (target : ValueType) (args : List ValueType) : Bool :=
  match target, args with
  | .scalar _, [.scalar _] => true
  | .vector _ _, [.scalar _] => true
  | .vector _ n, args => (args.mapM ValueType.components?).map (List.foldl (· + ·) 0) = some n
  | _, _ => false

/-- The functions of the language itself that shaders call. -/
def builtin? (name : String) (args : List ValueType) : Option ValueType :=
  match name, args with
  | "texelFetch", [.usampler2D, .vector .int 2, .scalar .int] => some (.vector .uint 4)
  | "texelFetch", [.sampler2DArray, .vector .int 3, .scalar .int] => some (.vector .float 4)
  | "floor", [.scalar .float] => some (.scalar .float)
  | "clamp", [.scalar .int, .scalar .int, .scalar .int] => some (.scalar .int)
  | _, _ => none

/-- The names of the language itself that no declaration may take. -/
def languageNames : List String :=
  ["bool", "int", "float", "ivec2", "ivec3", "ivec4", "uvec4", "texelFetch", "floor", "clamp"]

/-- The type of a call with arguments of the given types, some of which code may write.  A variable
hides the function of its name; what is passed out of a function needs a place to be written to. -/
def Context.call? (ctx : Context) (name : String) (args : List ValueType) (writable : List Bool) :
    Option ValueType :=
  match constructor? name with
  | some target => if target.constructs args then some target else none
  | none =>
    if (ctx.locals.lookup name).isSome then none
    else match ctx.globals.lookup name with
      | some (.function params result) =>
        if args = params.map Prod.snd ∧
            ((params.zip writable).all fun p => p.1.1 ≠ .inputOutput || p.2) then some result
        else none
      | some (.var _ _) => none
      | none => builtin? name args

/-! ## Expressions -/

/-- The number of a component by its letter. -/
def componentIndex? : Char → Option Nat
  | 'x' => some 0
  | 'y' => some 1
  | 'z' => some 2
  | 'w' => some 3
  | _ => none

/-- The type of some components of a vector by their letters. -/
def membersType? (s : Scalar) (size : Nat) (letters : List Char) : Option ValueType := do
  let places ← letters.mapM componentIndex?
  if places.all (· < size) then
    match places with
    | [] => none
    | [_] => some (.scalar s)
    | _ => some (.vector s places.length)
  else none

/-- Whether a text is a float literal: a decimal with a point or an exponent. -/
def isFloatLiteral (text : String) : Bool :=
  0 < text.toList.length && floatLength text.toList = text.toList.length

/-- Whether an expression is a place that can be written to: a variable or a component of one. -/
def Term.writable (ctx : Context) : Term → Bool
  | .name id => ((ctx.var? id).map Prod.snd).getD false
  | .component v _ => v.writable ctx
  | _ => false

mutual

/-- The type of an expression. -/
def Term.type? (ctx : Context) : Term → Option ValueType
  | .name id => (ctx.var? id).map Prod.fst
  | .int _ => some (.scalar .int)
  | .hex _ => some (.scalar .int)
  | .float text => if isFloatLiteral text then some (.scalar .float) else none
  | .bool _ => some (.scalar .bool)
  | .paren t => t.type? ctx
  | .binary op l r => do
    let a ← l.type? ctx
    let b ← r.type? ctx
    if l.rank ≤ op.rank ∧ r.rank < op.rank then op.type? a b else none
  | .unary op t => do
    let a ← t.type? ctx
    if t.rank < 3 then op.type? a else none
  | .ternary test yes no => do
    let c ← test.type? ctx
    let a ← yes.type? ctx
    let b ← no.type? ctx
    if test.rank < 15 ∧ c = .scalar .bool ∧ a = b then some a else none
  | .call f args => do
    let types ← Term.types? ctx args
    ctx.call? f types (args.map (Term.writable ctx))
  | .component v i => do
    match ← v.type? ctx with
    | .vector s size => if v.rank < 3 ∧ i < size then some (.scalar s) else none
    | _ => none
  | .member v part => do
    match ← v.type? ctx with
    | .vector s size => if v.rank < 3 then membersType? s size part.toList else none
    | _ => none

/-- The types of expressions in turn. -/
def Term.types? (ctx : Context) : List Term → Option (List ValueType)
  | [] => some []
  | t :: ts => do
    let a ← t.type? ctx
    let more ← Term.types? ctx ts
    return a :: more

end

/-! ## Statements

The check follows the text: it is given the variables in scope and gives those of the next
statement. A jump to the next round is allowed inside loops only.
-/

/-- Declares a variable in a scope that `start` variables lie outside of.  One scope declares a name
only once. -/
def VarTypes.declare? (start : Nat) (type : GType) (name : String) (locals : VarTypes) :
    Option VarTypes :=
  if type.isLocal ∧ name ∉ (locals.take (locals.length - start)).map Prod.fst then
    some ((name, type.value) :: locals)
  else none

mutual

/-- Checks a statement of a function with the result type `result`, inside a loop or not, in a scope
that `start` variables lie outside of, and gives the variables of the next statement. -/
def Code.check (globals : Globals) (result : ValueType) (looping : Bool) (start : Nat) :
    Code → VarTypes → Option VarTypes
  | .declare type name init, locals => do
    let t ← init.type? ⟨globals, locals⟩
    if t = type.value then locals.declare? start type name else none
  | .assign target op value, locals => do
    let old ← target.type? ⟨globals, locals⟩
    let new ← value.type? ⟨globals, locals⟩
    if target.writable ⟨globals, locals⟩ ∧ storedType? op old new = some old then some locals
    else none
  | .call t, locals => do
    let _ ← t.type? ⟨globals, locals⟩
    return locals
  | .block body, locals => do
    let _ ← Code.checkAll globals result looping locals.length body locals
    return locals
  | .when test body, locals => do
    let t ← test.type? ⟨globals, locals⟩
    let _ ← Code.checkAll globals result looping locals.length body locals
    if t = .scalar .bool then some locals else none
  | .branch test yes no, locals => do
    let t ← test.type? ⟨globals, locals⟩
    let _ ← Code.checkAll globals result looping locals.length yes locals
    let _ ← Code.checkAll globals result looping locals.length no locals
    if t = .scalar .bool then some locals else none
  -- the counter and the body of a loop share one scope
  | .loop counter _ body, locals => do
    let _ ← Code.checkAll globals result true locals.length body ((counter, .scalar .int) :: locals)
    return locals
  | .skip, locals => if looping then some locals else none
  | .result t, locals => do
    let a ← t.type? ⟨globals, locals⟩
    if a = result ∧ a ≠ .void then some locals else none
  | .comment _, locals => some locals

/-- Checks statements in turn. -/
def Code.checkAll (globals : Globals) (result : ValueType) (looping : Bool) (start : Nat) :
    List Code → VarTypes → Option VarTypes
  | [], locals => some locals
  | c :: cs, locals => do
    let locals ← Code.check globals result looping start c locals
    Code.checkAll globals result looping start cs locals

end

/-! ## Functions -/

namespace Function

/-- What the name of a function stands for. -/
def entity (f : Function) : Entity :=
  .function (f.params.map fun p => (p.passing, p.type.value)) f.type.value

/-- The parameters of a function as variables. -/
def paramTypes (f : Function) : VarTypes := (f.params.map fun p => (p.name, p.type.value)).reverse

/-- Checks a function definition behind the declarations `globals`.  Its parameters and its body
share one scope. -/
def checks (globals : Globals) (f : Function) : Bool :=
  f.params.all (·.type.isLocal) && decide (f.params.map (·.name)).Nodup &&
    (Code.checkAll globals f.type.value false 0 f.body f.paramTypes).isSome

end Function

/-! ## Shaders

Everything outside of functions is declared in the order of the text, and functions see what stands
above them.
-/

namespace Globals

/-- Declares a name that is not declared yet, neither as a variable nor as a function. -/
def declare? (name : String) (entity : Entity) (globals : Globals) : Option Globals :=
  if name ∈ languageNames ∨ name ∈ globals.map Prod.fst then none
  else some ((name, entity) :: globals)

/-- Declares variables in turn. -/
def declareAll? (writable : Bool) : List Global → Globals → Option Globals
  | [], globals => some globals
  | v :: vs, globals => do
    let globals ← globals.declare? v.name (.var v.type.value writable)
    declareAll? writable vs globals

/-- Defines functions in turn; each may call those before it. -/
def defineAll? : List Function → Globals → Option Globals
  | [], globals => some globals
  | f :: fs, globals =>
    if f.checks globals then do
      let globals ← globals.declare? f.name f.entity
      defineAll? fs globals
    else none

/-- What every shader is given: the place that it computes. -/
def given : Globals := [("gl_FragCoord", .var (.vector .float 4) false)]

end Globals

/-- Checks a whole shader and gives what it declares.  Uniforms are read only. -/
def check (s : Shader) : Option Globals := do
  let globals ← Globals.given.declareAll? false s.uniforms
  let globals ← globals.declareAll? true s.outputs
  let globals ← globals.declareAll? true s.globals
  globals.defineAll? s.functions

/-! ## The rules one by one

The check restated as rules, each with the premises that a use of it has to provide.
-/

section Rules

attribute [local simp] Term.type? Term.types? Code.check Code.checkAll

variable {ctx : Context} {a b c : ValueType}

lemma type?_name {id : String} {writable : Bool} (h : ctx.var? id = some (a, writable)) :
    (Term.name id).type? ctx = some a := by
  simp [h]

lemma type?_paren {t : Term} (h : t.type? ctx = some a) : (Term.paren t).type? ctx = some a := by
  rwa [Term.type?]

lemma type?_binary {op : Op} {l r : Term} (hl : l.type? ctx = some a) (hr : r.type? ctx = some b)
    (hleft : l.rank ≤ op.rank) (hright : r.rank < op.rank) (hop : op.type? a b = some c) :
    (Term.binary op l r).type? ctx = some c := by
  rw [Term.type?, hl, hr]
  exact (if_pos ⟨hleft, hright⟩).trans hop

/-- All operators bind looser than a sign. -/
lemma Op.three_lt_rank (op : Op) : 3 < op.rank := by
  cases op with
  | rule op => cases op <;> simp [Op.rank]
  | bitAnd | bitOr | shiftLeft | shiftRight => simp [Op.rank]

/-- Operands that bind tighter than all operators. -/
lemma type?_tight {op : Op} {l r : Term} (hl : l.type? ctx = some a) (hr : r.type? ctx = some b)
    (hop : op.type? a b = some c) (hleft : l.rank ≤ 3) (hright : r.rank ≤ 3) :
    (Term.binary op l r).type? ctx = some c := by
  have hrank := op.three_lt_rank
  exact type?_binary hl hr (by omega) (by omega) hop

lemma type?_unary {op : Sign} {t : Term} (ht : t.type? ctx = some a) (hrank : t.rank < 3)
    (hop : op.type? a = some b) : (Term.unary op t).type? ctx = some b := by
  rw [Term.type?, ht]
  exact (if_pos hrank).trans hop

lemma type?_ternary {test yes no : Term} (htest : test.type? ctx = some (.scalar .bool))
    (hyes : yes.type? ctx = some a) (hno : no.type? ctx = some a) (hrank : test.rank < 15) :
    (Term.ternary test yes no).type? ctx = some a := by
  rw [Term.type?, htest, hyes, hno]
  exact if_pos ⟨hrank, rfl, rfl⟩

lemma types?_cons {t : Term} {ts : List Term} {types : List ValueType} (ht : t.type? ctx = some a)
    (hts : Term.types? ctx ts = some types) : Term.types? ctx (t :: ts) = some (a :: types) := by
  simp [ht, hts]

lemma types?_one {t : Term} (ht : t.type? ctx = some a) : Term.types? ctx [t] = some [a] :=
  types?_cons ht rfl

lemma types?_two {t u : Term} (ht : t.type? ctx = some a) (hu : u.type? ctx = some b) :
    Term.types? ctx [t, u] = some [a, b] :=
  types?_cons ht (types?_one hu)

lemma types?_three {t u v : Term} (ht : t.type? ctx = some a) (hu : u.type? ctx = some b)
    (hv : v.type? ctx = some c) : Term.types? ctx [t, u, v] = some [a, b, c] :=
  types?_cons ht (types?_two hu hv)

lemma type?_call {f : String} {args : List Term} {types : List ValueType}
    (hargs : Term.types? ctx args = some types)
    (hcall : ctx.call? f types (args.map (Term.writable ctx)) = some a) :
    (Term.call f args).type? ctx = some a := by
  rw [Term.type?, hargs]
  exact hcall

/-- A constructor of a type, which nothing can hide. -/
lemma type?_construct {f : String} {args : List Term} {types : List ValueType}
    (hf : constructor? f = some a) (hargs : Term.types? ctx args = some types)
    (hconstructs : a.constructs types = true) : (Term.call f args).type? ctx = some a := by
  refine type?_call hargs ?_
  rw [Context.call?, hf]
  exact if_pos hconstructs

lemma type?_component {v : Term} {s : Scalar} {size i : Nat}
    (hv : v.type? ctx = some (.vector s size)) (hrank : v.rank < 3) (hi : i < size) :
    (Term.component v i).type? ctx = some (.scalar s) := by
  rw [Term.type?, hv]
  exact if_pos ⟨hrank, hi⟩

lemma type?_member {v : Term} {part : String} {s : Scalar} {size : Nat}
    (hv : v.type? ctx = some (.vector s size)) (hrank : v.rank < 3)
    (hpart : membersType? s size part.toList = some a) :
    (Term.member v part).type? ctx = some a := by
  rw [Term.type?, hv]
  exact (if_pos hrank).trans hpart

variable {g : Globals} {result : ValueType} {looping : Bool} {start : Nat} {locals : VarTypes}

lemma check_declare {type : GType} {name : String} {init : Term}
    (hinit : init.type? ⟨g, locals⟩ = some type.value) (hlocal : type.isLocal = true)
    (hnew : name ∉ (locals.take (locals.length - start)).map Prod.fst) :
    (Code.declare type name init).check g result looping start locals
      = some ((name, type.value) :: locals) := by
  rw [Code.check, hinit]
  simp only [Option.bind_eq_bind, Option.bind_some, if_true, VarTypes.declare?]
  exact if_pos ⟨hlocal, hnew⟩

lemma check_assign {target value : Term} {op : AssignOp} (htarget : target.type? ⟨g, locals⟩ = some a)
    (hwritable : target.writable ⟨g, locals⟩ = true) (hvalue : value.type? ⟨g, locals⟩ = some b)
    (hstored : storedType? op a b = some a) :
    (Code.assign target op value).check g result looping start locals = some locals := by
  rw [Code.check, htarget, hvalue]
  exact if_pos ⟨hwritable, hstored⟩

lemma check_call {t : Term} (h : t.type? ⟨g, locals⟩ = some a) :
    (Code.call t).check g result looping start locals = some locals := by
  simp [h]

lemma check_block {body : List Code} {inner : VarTypes}
    (hbody : Code.checkAll g result looping locals.length body locals = some inner) :
    (Code.block body).check g result looping start locals = some locals := by
  simp [hbody]

lemma check_when {test : Term} {body : List Code} {inner : VarTypes}
    (htest : test.type? ⟨g, locals⟩ = some (.scalar .bool))
    (hbody : Code.checkAll g result looping locals.length body locals = some inner) :
    (Code.when test body).check g result looping start locals = some locals := by
  simp [htest, hbody]

lemma check_branch {test : Term} {yes no : List Code} {inner other : VarTypes}
    (htest : test.type? ⟨g, locals⟩ = some (.scalar .bool))
    (hyes : Code.checkAll g result looping locals.length yes locals = some inner)
    (hno : Code.checkAll g result looping locals.length no locals = some other) :
    (Code.branch test yes no).check g result looping start locals = some locals := by
  simp [htest, hyes, hno]

lemma check_loop {counter : String} {bound : Nat} {body : List Code} {inner : VarTypes}
    (hbody : Code.checkAll g result true locals.length body ((counter, .scalar .int) :: locals)
      = some inner) :
    (Code.loop counter bound body).check g result looping start locals = some locals := by
  simp [hbody]

lemma check_result {t : Term} (h : t.type? ⟨g, locals⟩ = some result) (hvoid : result ≠ .void) :
    (Code.result t).check g result looping start locals = some locals := by
  rw [Code.check, h]
  exact if_pos ⟨rfl, hvoid⟩

lemma checkAll_cons {code : Code} {codes : List Code} {inner : VarTypes}
    (h : code.check g result looping start locals = some inner) :
    Code.checkAll g result looping start (code :: codes) locals
      = Code.checkAll g result looping start codes inner := by
  simp [h]

lemma checkAll_one {code : Code} {inner : VarTypes}
    (h : code.check g result looping start locals = some inner) :
    Code.checkAll g result looping start [code] locals = some inner :=
  checkAll_cons h

lemma checkAll_append {codes more : List Code} {inner : VarTypes}
    (h : Code.checkAll g result looping start codes locals = some inner) :
    Code.checkAll g result looping start (codes ++ more) locals
      = Code.checkAll g result looping start more inner := by
  induction codes generalizing locals with
  | nil =>
      cases h
      rfl
  | cons code codes ih =>
      rw [Code.checkAll, Option.bind_eq_bind, Option.bind_eq_some_iff] at h
      obtain ⟨next, hcode, hcodes⟩ := h
      rw [List.cons_append, checkAll_cons hcode]
      exact ih hcodes

end Rules

end Cellular.Shader
