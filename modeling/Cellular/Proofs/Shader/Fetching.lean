import Cellular.Machine.Board
import Cellular.Number.Decimal
import Cellular.Proofs.Shader.Static
import Cellular.Shader.Generate
import Mathlib.Data.Int.Bitwise
import Mathlib.Data.Rat.Floor
import Mathlib.Tactic.Common

/-!
# What shader code fetches

An evaluator that keeps a record of the texels that code fetches, in order.  It leaves open what the
numbers of a shader are, so that a quotient can be read over exact rationals as well as over rounded
ones, and an integer with or without a bound.

* `Numbers` says what integers and floats are; `Numbers.Exact` that they hold small integers and
  their quotients exactly.  `Numbers.rational` is one choice, `Numbers.words` another.
* `Traced` is a computation with the texels it fetches, each of them a `Fetch`.
* `Term.trace` evaluates an expression, `Code.trace` runs a statement, and `Ending` is how a
  statement ends; `rounds_done` is the rule for loops.
* `Stage` is what a shader is given from outside; `Shader.trace` calls one of its functions there.

The evaluator of values in `Cellular.Proofs.Shader.Semantics` would not do here.  It computes with
floats of 32 bits, whose quotients are rounded, and it does not say which texels a run has looked
at. This one leaves out functions that assign to a parameter, which counting does not use.  It looks
at types only where an operator needs them, as generated shaders keep the static rules of the
language.
-/

namespace Cellular.Shader

/-! ## Numbers

Two demands are made of numbers, and only up to a bound.  They are stated about the operations that
shaders use, the quotient together with its rounding, so that a device that computes the quotient in
another way may satisfy them as well.
-/

/-- What the integers and the floats of a shader are. -/
structure Numbers where
  /-- The floats. -/
  Real : Type
  /-- What a word holds of an integer. -/
  word : Int → Int
  ofInt : Int → Real
  ofDecimal : Number.Decimal → Real
  /-- A weight, as it is fetched from the table. -/
  ofSingle : Float32 → Real
  neg : Real → Real
  floor : Real → Real
  /-- The integer part, toward zero. -/
  truncate : Real → Int
  /-- The value of an operator of arithmetic. -/
  combine : BinaryOp → Real → Real → Real
  /-- Whether two floats compare in a certain way. -/
  compare : BinaryOp → Real → Real → Bool

namespace Numbers

/-- Words hold the integers up to `bound` and rounding the quotient of two of them down is exact. -/
structure Exact (N : Numbers) (bound : Nat) : Prop where
  word : ∀ i : Int, i.natAbs ≤ bound → N.word i = i
  quotient : ∀ (i : Int) (size : Nat), i.natAbs ≤ bound → 0 < size → size ≤ bound →
    N.truncate (N.floor (N.combine .div (N.ofInt i) (N.ofInt size))) = ⌊(i : ℚ) / size⌋

/-- An unpacked float as a fraction; infinities and not-a-numbers have none. -/
def fraction : Number.Unpacked → ℚ
  | .finite negative mantissa exponent =>
    (if negative then -1 else 1) * mantissa * (2 : ℚ) ^ exponent
  | _ => 0

/-- Integers without bounds and exact rationals. -/
def rational : Numbers where
  Real := ℚ
  word i := i
  ofInt i := i
  ofDecimal d := (if d.negative then -1 else 1) * d.digits * (10 : ℚ) ^ d.exponent
  ofSingle x := fraction (Number.unpack32 x)
  neg x := -x
  floor x := ⌊x⌋
  truncate x := x.num.tdiv x.den
  combine
    | .add, a, b => a + b
    | .sub, a, b => a - b
    | .mul, a, b => a * b
    | .div, a, b => a / b
    | _, _, _ => 0
  compare
    | .lt, a, b => a < b
    | .le, a, b => a ≤ b
    | .gt, a, b => b < a
    | .ge, a, b => b ≤ a
    | .eq, a, b => a = b
    | .ne, a, b => a ≠ b
    | _, _, _ => false

/-- Words of 32 bits in two's complement, and exact rationals. -/
def words : Numbers := { rational with word := fun i => i.bmod 4294967296 }

/-- Numbers without bounds are exact. -/
lemma rational_exact (bound : Nat) : rational.Exact bound where
  word i _ := rfl
  quotient i size _ _ _ := by
    change ((⌊(i : ℚ) / (size : Int)⌋ : ℚ)).num.tdiv ((⌊(i : ℚ) / (size : Int)⌋ : ℚ)).den = _
    simp

/-- Words of 32 bits hold the integers below `2 ^ 31`. -/
lemma words_exact {bound : Nat} (h : bound < 2147483648) : words.Exact bound where
  word i hi := by
    refine Int.bmod_eq_of_le ?_ ?_ <;> omega
  quotient := (rational_exact bound).quotient

end Numbers

/-! ## Values

Textures are values without content; what a fetch from one of them gives is decided by the stage.
-/

/-- Values: scalars, vectors, and the two textures. -/
inductive Item (N : Numbers) where
  | bool (b : Bool)
  | int (i : Int)
  | real (r : N.Real)
  | ints (cs : List Int)
  | reals (cs : List N.Real)
  | board
  | weights

/-- A texel of the weight table or of the board, by its coordinates. -/
inductive Fetch where
  | weight (x y layer : Int)
  | cell (x y : Int)
deriving Repr, DecidableEq

/-- A result, unless the code has no meaning, and the texels that were fetched on the way. -/
def Traced (α : Type) : Type := Option (α × List Fetch)

namespace Traced

variable {α β : Type}

/-- A result after some fetches. -/
def done (a : α) (fetched : List Fetch) : Traced α := some (a, fetched)

/-- Code without a meaning. -/
def stuck : Traced α := none

/-- A computation that fetches nothing. -/
def silent (a : Option α) : Traced α := a.map fun a => (a, [])

/-- A computation behind some fetches. -/
def after (fetched : List Fetch) (m : Traced α) : Traced α :=
  Option.map (fun p => (p.1, fetched ++ p.2)) m

instance : Monad Traced where
  pure a := done a []
  bind m f := Option.bind m fun p => (f p.1).after p.2

@[simp] lemma pure_eq (a : α) : (pure a : Traced α) = done a [] := rfl

@[simp] lemma done_bind (a : α) (fetched : List Fetch) (f : α → Traced β) :
    (done a fetched >>= f) = (f a).after fetched := rfl

@[simp] lemma after_nil (m : Traced α) : m.after [] = m := by
  cases m <;> rfl

@[simp] lemma after_done (fetched more : List Fetch) (a : α) :
    (done a more).after fetched = done a (fetched ++ more) := rfl

@[simp] lemma silent_some (a : α) : silent (some a) = done a [] := rfl

end Traced

section

variable {N : Numbers}

namespace Item

/-- The components that a value gives to a vector of integers. -/
def ints? : Item N → Option (List Int)
  | .int i => some [i]
  | .ints cs => some cs
  | _ => none

/-- A vector of `size` integers, from one for all components or from all of them. -/
def vector? (size : Nat) : List (Item N) → Option (Item N)
  | [.int i] => some (.ints (List.replicate size i))
  | args => do
    let parts ← args.mapM ints?
    if parts.flatten.length = size then some (.ints parts.flatten) else none

/-- One component of a vector. -/
def component? (i : Nat) : Item N → Option (Item N)
  | .ints cs => cs[i]?.map .int
  | .reals cs => cs[i]?.map .real
  | _ => none

end Item

/-- Operators between integers.  A quotient or a remainder by zero is zero. -/
def Op.ofInts (op : Op) (a b : Int) : Option (Item N) :=
  match op with
  | .rule .add => some (.int (N.word (a + b)))
  | .rule .sub => some (.int (N.word (a - b)))
  | .rule .mul => some (.int (N.word (a * b)))
  | .rule .div => some (.int (N.word (a.tdiv b)))
  | .rule .mod => some (.int (if b = 0 then 0 else N.word (a.tmod b)))
  | .rule .lt => some (.bool (a < b))
  | .rule .le => some (.bool (a ≤ b))
  | .rule .gt => some (.bool (b < a))
  | .rule .ge => some (.bool (b ≤ a))
  | .rule .eq => some (.bool (a = b))
  | .rule .ne => some (.bool (a ≠ b))
  | .bitAnd => some (.int (a.land b))
  | .bitOr => some (.int (a.lor b))
  | .shiftLeft => if 0 ≤ b ∧ b < 32 then some (.int (N.word (a <<< b.toNat))) else none
  | .shiftRight => if 0 ≤ b ∧ b < 32 then some (.int (a >>> b.toNat)) else none
  | _ => none

/-- Operators between floats. -/
def Op.ofReals (op : Op) (a b : N.Real) : Option (Item N) :=
  match op with
  | .rule op =>
    if op ∈ [.add, .sub, .mul, .div] then some (.real (N.combine op a b))
    else if op ∈ [.lt, .le, .gt, .ge, .eq, .ne] then some (.bool (N.compare op a b))
    else none
  | _ => none

/-- Operators between truth values. -/
def Op.ofBools (op : Op) (a b : Bool) : Option (Item N) :=
  match op with
  | .rule .and => some (.bool (a && b))
  | .rule .or => some (.bool (a || b))
  | .rule .eq => some (.bool (a = b))
  | .rule .ne => some (.bool (a ≠ b))
  | _ => none

/-- The value of `l op r` for operands of one scalar type. -/
def Op.item? (op : Op) : Item N → Item N → Option (Item N)
  | .int a, .int b => op.ofInts a b
  | .real a, .real b => op.ofReals a b
  | .bool a, .bool b => op.ofBools a b
  | _, _ => none

/-- Whether the left operand of `&&` or `||` decides without a look at the right one. -/
def Op.decides (op : Op) : Item N → Bool
  | .bool a => (op = .rule .and && !a) || (op = .rule .or && a)
  | _ => false

/-- The value of a unary operator. -/
def Sign.item? (op : Sign) : Item N → Option (Item N)
  | .bool b => if op = .rule .not then some (.bool !b) else none
  | .int i =>
    match op with
    | .rule .neg => some (.int (N.word (-i)))
    | .complement => some (.int i.lnot)
    | _ => none
  | .real r => if op = .rule .neg then some (.real (N.neg r)) else none
  | _ => none

/-- The value that an assignment stores. -/
def stored? (op : AssignOp) (old new : Item N) : Option (Item N) :=
  match op with
  | .set => some new
  | .update b => if b ∈ AssignOp.arithmetic then (Op.rule b).item? old new else none
  | .unknown _ => none

/-! ## Expressions -/

/-- The variables in scope, the innermost first. -/
abbrev Items (N : Numbers) : Type := List (String × Item N)

/-- Gives the innermost variable of a name a new value. -/
def Items.assign (name : String) (v : Item N) : Items N → Option (Items N)
  | [] => none
  | (n, old) :: outer =>
    if n = name then some ((n, v) :: outer) else (assign name v outer).map ((n, old) :: ·)

/-- Drops what was declared since there were `start` variables. -/
def Items.leave (start : Nat) (vars : Items N) : Items N := vars.drop (vars.length - start)

/-- What the functions do that a piece of code may call. -/
abbrev Functions (N : Numbers) : Type := String → List (Item N) → Traced (Item N)

/-- The number of a component by its name. -/
def partIndex? : String → Option Nat
  | "x" => some 0
  | "y" => some 1
  | "z" => some 2
  | "w" => some 3
  | _ => none

mutual

/-- The value of an expression.  Operands and arguments are evaluated from left to right, and `&&`
and `||` look at their right operand only if the left one does not decide. -/
def Term.trace (calls : Functions N) (vars : Items N) : Term → Traced (Item N)
  | .name id => .silent (vars.lookup id)
  -- a literal is written only where a word holds its value
  | .int n => pure (.int n)
  | .hex n => pure (.int n)
  | .float text => .silent ((Number.Decimal.parse? text.toList).map fun d => .real (N.ofDecimal d))
  | .bool b => pure (.bool b)
  | .paren t => t.trace calls vars
  | .binary op l r => do
    let a ← l.trace calls vars
    if op.decides a then pure a
    else
      let b ← r.trace calls vars
      .silent (op.item? a b)
  | .unary op t => do
    let v ← t.trace calls vars
    .silent (op.item? v)
  | .ternary test yes no => do
    match ← test.trace calls vars with
    | .bool true => yes.trace calls vars
    | .bool false => no.trace calls vars
    | _ => .stuck
  | .call f args => do
    let vs ← Term.traces calls vars args
    calls f vs
  | .component v i => do
    let v ← v.trace calls vars
    .silent (v.component? i)
  | .member v part => do
    let v ← v.trace calls vars
    .silent ((partIndex? part).bind fun i => v.component? i)

/-- The values of expressions in turn. -/
def Term.traces (calls : Functions N) (vars : Items N) : List Term → Traced (List (Item N))
  | [] => pure []
  | t :: ts => do
    let v ← t.trace calls vars
    let vs ← Term.traces calls vars ts
    return v :: vs

end

/-! ## Statements -/

/-- How a statement ends: the next one follows, the next round of the loop follows, or the function
ends with a result. -/
inductive Ending (N : Numbers) where
  | next (vars : Items N)
  | skip (vars : Items N)
  | result (v : Item N)

/-- Drops what was declared since there were `start` variables. -/
def Ending.leave (start : Nat) : Ending N → Ending N
  | .next vars => .next (vars.leave start)
  | .skip vars => .skip (vars.leave start)
  | .result v => .result v

/-- Runs the rounds of a loop in turn; each has its own value of the counter. -/
def rounds (counter : String) (body : Items N → Traced (Ending N)) :
    List Nat → Items N → Traced (Ending N)
  | [], vars => pure (.next vars)
  | i :: more, vars => do
    match ← body ((counter, .int i) :: vars) with
    | .next inner => rounds counter body more (inner.leave vars.length)
    | .skip inner => rounds counter body more (inner.leave vars.length)
    | .result v => pure (.result v)

mutual

/-- Runs a statement of a function with a result. -/
def Code.trace (calls : Functions N) : Code → Items N → Traced (Ending N)
  | .declare _ name init, vars => do
    let v ← init.trace calls vars
    return .next ((name, v) :: vars)
  | .assign target op value, vars => do
    let v ← value.trace calls vars
    match target with
    | .name x =>
      let new := (vars.lookup x).bind fun old => stored? op old v
      .silent ((new.bind fun new => vars.assign x new).map .next)
    | _ => .stuck
  | .block body, vars => do
    let ending ← Code.traceAll calls body vars
    return ending.leave vars.length
  | .when test body, vars => do
    match ← test.trace calls vars with
    | .bool true => do
      let ending ← Code.traceAll calls body vars
      return ending.leave vars.length
    | .bool false => return .next vars
    | _ => .stuck
  | .branch test yes no, vars => do
    match ← test.trace calls vars with
    | .bool true => do
      let ending ← Code.traceAll calls yes vars
      return ending.leave vars.length
    | .bool false => do
      let ending ← Code.traceAll calls no vars
      return ending.leave vars.length
    | _ => .stuck
  | .loop counter bound body, vars =>
    rounds counter (fun vars => Code.traceAll calls body vars) (List.range bound) vars
  | .skip, vars => return .skip vars
  | .result t, vars => do
    let v ← t.trace calls vars
    return .result v
  | .comment _, vars => return .next vars
  -- functions without a result are called for the cell that is written, not for what is counted
  | .call _, _ => .stuck

/-- Runs statements in turn, up to the first that does not let the next one follow. -/
def Code.traceAll (calls : Functions N) : List Code → Items N → Traced (Ending N)
  | [], vars => return .next vars
  | c :: cs, vars => do
    match ← Code.trace calls c vars with
    | .next vars => Code.traceAll calls cs vars
    | ending => return ending

end

/-- The result of a function, whose parameters stand in front of the variables `globals`.  Functions
with a result assign to variables of their own only. -/
def Function.trace (f : Function) (globals : Items N) (calls : Functions N)
    (args : List (Item N)) : Traced (Item N) := do
  if args.length = f.params.length then
    match ← Code.traceAll calls f.body (((f.params.map (·.name)).zip args).reverse ++ globals) with
    | .result v => return v
    | _ => .stuck
  else .stuck

/-! ## Code step by step

One lemma for each form of code, with what its parts fetch in front of what it fetches itself.
-/

section Rules

variable {calls : Functions N} {vars inner : Items N} {v w : Item N} {fetched more : List Fetch}

lemma trace_name {id : String} (h : vars.lookup id = some v) :
    (Term.name id).trace calls vars = .done v [] := by
  rw [Term.trace, h, Traced.silent_some]

lemma trace_int (n : Int) : (Term.int n).trace calls vars = .done (.int n) [] := by
  rw [Term.trace, Traced.pure_eq]

/-- An operator between operands that fetch nothing. -/
lemma trace_binary {op : Op} {l r : Term} {a b : Item N} (hl : l.trace calls vars = .done a [])
    (hr : r.trace calls vars = .done b []) (hdecides : op.decides a = false)
    (hv : op.item? a b = some v) : (Term.binary op l r).trace calls vars = .done v [] := by
  simp [Term.trace, hl, hr, hdecides, hv]

lemma trace_ints {op : BinaryOp} {l r : Term} {a b : Int}
    (hl : l.trace calls vars = .done (.int a) []) (hr : r.trace calls vars = .done (.int b) [])
    (hv : (Op.rule op).ofInts a b = some v) :
    (Term.op op l r).trace calls vars = .done v [] :=
  trace_binary hl hr rfl hv

lemma traces_cons {t : Term} {ts : List Term} {vs : List (Item N)}
    (ht : t.trace calls vars = .done v fetched) (hts : Term.traces calls vars ts = .done vs more) :
    Term.traces calls vars (t :: ts) = .done (v :: vs) (fetched ++ more) := by
  simp [Term.traces, ht, hts]

lemma traces_nil : Term.traces calls vars [] = .done ([] : List (Item N)) [] := by
  simp [Term.traces]

/-- A call, behind the fetches of its arguments. -/
lemma trace_call {f : String} {args : List Term} {vs : List (Item N)}
    (hargs : Term.traces calls vars args = .done vs fetched) (hcall : calls f vs = .done v more) :
    (Term.call f args).trace calls vars = .done v (fetched ++ more) := by
  simp [Term.trace, hargs, hcall]

lemma trace_member {t : Term} {part : String} {i : Nat} (ht : t.trace calls vars = .done v fetched)
    (hpart : partIndex? part = some i) (hw : v.component? i = some w) :
    (Term.member t part).trace calls vars = .done w fetched := by
  simp [Term.trace, ht, hpart, hw]

lemma trace_declare {type : GType} {name : String} {init : Term}
    (h : init.trace calls vars = .done v fetched) :
    (Code.declare type name init).trace calls vars = .done (.next ((name, v) :: vars)) fetched := by
  simp [Code.trace, h]

lemma trace_assign {x : String} {op : AssignOp} {value : Term} {old new : Item N}
    (hvalue : value.trace calls vars = .done v fetched) (hold : vars.lookup x = some old)
    (hnew : stored? op old v = some new) (hvars : vars.assign x new = some inner) :
    (Code.assign (.name x) op value).trace calls vars = .done (.next inner) fetched := by
  simp [Code.trace, hvalue, hold, hnew, hvars]

lemma traceAll_cons {c : Code} {cs : List Code} {ending : Ending N}
    (hc : c.trace calls vars = .done (.next inner) fetched)
    (hcs : Code.traceAll calls cs inner = .done ending more) :
    Code.traceAll calls (c :: cs) vars = .done ending (fetched ++ more) := by
  simp [Code.traceAll, hc, hcs]

lemma traceAll_result {t : Term} (h : t.trace calls vars = .done v fetched) :
    Code.traceAll calls [.result t] vars = .done (.result v) fetched := by
  simp [Code.traceAll, Code.trace, h]

/-- A function gives the result of its body, which sees its arguments. -/
lemma trace_function {f : Function} {globals : Items N} {args : List (Item N)}
    (hlength : args.length = f.params.length)
    (hbody : Code.traceAll calls f.body (((f.params.map (·.name)).zip args).reverse ++ globals)
      = .done (.result v) fetched) :
    f.trace globals calls args = .done v fetched := by
  simp [Function.trace, hlength, hbody]

/-- A statement that fetches nothing. -/
lemma traceAll_step {code : Code} {codes : List Code}
    (h : code.trace calls vars = .done (.next inner) []) :
    Code.traceAll calls (code :: codes) vars = Code.traceAll calls codes inner := by
  simp [Code.traceAll, h]

/-- Whether or not the right operand is looked at. -/
lemma trace_or {l r : Term} {a b : Bool} (hl : l.trace calls vars = .done (.bool a) [])
    (hr : r.trace calls vars = .done (.bool b) []) :
    (Term.op .or l r).trace calls vars = .done (.bool (a || b)) [] := by
  cases a <;> simp [Term.op, Term.trace, hl, hr, Op.decides, Op.item?, Op.ofBools]

end Rules

/-! ## Loops

A round ends normally, or early by a jump to the next one.  Both are a continuation with the
variables of the loop, and the rule for loops does not tell them apart.
-/

/-- The next round of a loop follows, with the variables `vars`. -/
def Ending.Continues (start : Nat) (vars : Items N) (e : Ending N) : Prop :=
  ∃ inner, (e = .next inner ∨ e = .skip inner) ∧ inner.leave start = vars

/-- **Rounds of a loop**: if each round keeps an invariant of the variables, all rounds do, and what
they fetch is fetched in turn. -/
theorem rounds_done (counter : String) (body : Items N → Traced (Ending N)) (I : Items N → Prop)
    (fetched : Nat → List Fetch) :
    ∀ {is : List Nat}, (∀ i ∈ is, ∀ vars, I vars → ∃ e vars',
        body ((counter, .int i) :: vars) = .done e (fetched i) ∧
          e.Continues vars.length vars' ∧ I vars') →
      ∀ vars, I vars → ∃ vars', rounds counter body is vars
        = .done (.next vars') (is.flatMap fetched) ∧ I vars'
  | [], _, vars, hI => ⟨vars, rfl, hI⟩
  | i :: is, hround, vars, hI => by
      obtain ⟨hfirst, hmore⟩ := List.forall_mem_cons.mp hround
      obtain ⟨e, next, hbody, ⟨inner, hends, hleave⟩, hnext⟩ := hfirst vars hI
      obtain ⟨last, hlast, hI'⟩ := rounds_done counter body I fetched hmore next hnext
      refine ⟨last, ?_, hI'⟩
      rw [rounds, hbody, Traced.done_bind]
      rcases hends with rfl | rfl
      · simp [hleave, hlast]
      · simp [hleave, hlast]

end

end Cellular.Shader

/-! ## Shaders

The functions of a shader are linked from the last to the first: each may call those in front of it,
so that there is no recursion and calls need no fuel.
-/

namespace Cellular

/-- The weight at a texel of the table: a layer after the other, each row by row.  There is no texel
outside of the rows, the columns and the layers. -/
def KernelSet.texel? (s : KernelSet) (x y layer : Int) : Option Float32 :=
  if (0 ≤ x ∧ x < s.width) ∧ (0 ≤ y ∧ y < s.height) ∧ 0 ≤ layer ∧ layer < s.kernels.length then
    s.weights[((layer * s.height + y) * s.width + x).toNat]?
  else none

/-- The cell at a texel of the board. -/
def Board.texel? (b : Board) (x y : Int) : Option Record :=
  if (0 ≤ x ∧ x < b.width) ∧ 0 ≤ y ∧ y < b.height then b.get? x y else none

namespace Shader

/-- What a shader is given: a board, the weight table of some kernels, and the place that it
computes. -/
structure Stage where
  board : Board
  kernels : KernelSet
  x : Int
  y : Int

namespace Stage

variable {N : Numbers}

/-- The variables outside of all functions. -/
def globals (s : Stage) : Items N :=
  [(boardName, .board), (weightsName, .weights),
    (boardSizeName, .ints [s.board.width, s.board.height]), (coordName, .ints [s.x, s.y])]

/-- Fetches a texel, at the only level of detail. -/
def fetch (s : Stage) : List (Item N) → Traced (Item N)
  | [.board, .ints [x, y], .int 0] =>
    (s.board.texel? x y).map fun r =>
      (.ints [r.r.toNat, r.g.toNat, r.b.toNat, r.a.toNat], [.cell x y])
  | [.weights, .ints [x, y, layer], .int 0] =>
    (s.kernels.texel? x y layer).map fun w =>
      (.reals [N.ofSingle w, N.ofInt 0, N.ofInt 0, N.ofInt 1], [.weight x y layer])
  | _ => .stuck

/-- The functions of the language itself: constructors of types, and those on texels and numbers. -/
def language (s : Stage) : Functions N
  | "texelFetch", args => s.fetch args
  | "floor", [.real r] => pure (.real (N.floor r))
  | "clamp", [.int i, .int low, .int high] => pure (.int (min (max i low) high))
  | "int", [.int i] => pure (.int i)
  -- a float is cut toward zero, and truth is 1
  | "int", [.real r] => pure (.int (N.word (N.truncate r)))
  | "int", [.bool b] => pure (.int (if b then 1 else 0))
  | "float", [.int i] => pure (.real (N.ofInt i))
  | "float", [.real r] => pure (.real r)
  | "float", [.bool b] => pure (.real (N.ofInt (if b then 1 else 0)))
  | "bool", [.int i] => pure (.bool (i ≠ 0))
  | "bool", [.real r] => pure (.bool (N.compare .ne r (N.ofInt 0)))
  | "bool", [.bool b] => pure (.bool b)
  | "ivec2", args => .silent (Item.vector? 2 args)
  | "ivec3", args => .silent (Item.vector? 3 args)
  | "ivec4", args => .silent (Item.vector? 4 args)
  | _, _ => .stuck

/-- What some functions do, the last one first; each may call those behind it. -/
def linked (s : Stage) : List Function → Functions N
  | [] => s.language
  | f :: earlier => fun name args =>
    if name = f.name then f.trace s.globals (s.linked earlier) args else s.linked earlier name args

end Stage

end Shader

/-- Calls a function of a shader. -/
def Shader.trace (shader : Shader) {N : Shader.Numbers} (s : Shader.Stage) : Shader.Functions N :=
  s.linked shader.functions.reverse

namespace Shader

variable {N : Numbers} {s : Stage}

/-- What has the name of no function is one of the language. -/
lemma linked_language {fs : List Function} (hown : ∀ f ∈ fs, f.name ∉ languageNames) :
    ∀ name ∈ languageNames, (s.linked fs : Functions N) name = s.language name := by
  intro name hname
  induction fs with
  | nil => rfl
  | cons f fs ih =>
      obtain ⟨hf, hmore⟩ := List.forall_mem_cons.mp hown
      have hne : name ≠ f.name := by
        rintro rfl
        exact hf hname
      rw [← ih hmore]
      funext args
      exact if_neg hne

/-- A function is found by its name, and may call those in front of it. -/
lemma linked_append {later earlier : List Function} {f : Function}
    (hlater : ∀ g ∈ later, g.name ≠ f.name) (args : List (Item N)) :
    s.linked (later ++ f :: earlier) f.name args = f.trace s.globals (s.linked earlier) args := by
  induction later with
  | nil => exact if_pos rfl
  | cons g later ih =>
      obtain ⟨hg, hmore⟩ := List.forall_mem_cons.mp hlater
      exact (if_neg hg.symm).trans (ih hmore)

/-- Where names are distinct, every function is found. -/
lemma exists_linked {fs : List Function} (hnodup : (fs.map (·.name)).Nodup) {f : Function}
    (hf : f ∈ fs) :
    ∃ earlier ⊆ fs, ∀ args : List (Item N),
      s.linked fs f.name args = f.trace s.globals (s.linked earlier) args := by
  obtain ⟨later, earlier, rfl⟩ := List.append_of_mem hf
  refine ⟨earlier, fun g hg => by simp [hg], linked_append fun g hg hname => ?_⟩
  rw [List.map_append, List.map_cons, List.nodup_append] at hnodup
  exact hnodup.2.2 _ (List.mem_map_of_mem hg) _ List.mem_cons_self hname

end Shader

end Cellular
