import Cellular.Kernel
import Cellular.Shader.Printer

/-!
# From rules to shaders

The generated shader computes one generation: for every cell it counts the neighbours, runs the rule
on a copy of the cell and writes the declared fields of the copy.

* `getter` and `setter` are the accessors of a state field.
* `countFunction` is the function that counts the neighbours of one kernel.
* `Expr.toTerm` and `Stmt.toCode` give the code of a rule.
* `Shader.generate` puts a whole shader together.
-/

namespace Cellular

open Shader

/-! ## Names

Names of the rule language get prefixes in the shader, one for each sort of thing, so that a field,
a kernel and a variable may have one name.  The names of the shader's own things are fixed.  Which
names of fields and kernels keep all of these apart is a question about the prefixes, and is settled
with the proofs.
-/

namespace Shader

/-- The texture that holds the board. -/
def boardName : String := "board"

/-- The texture that holds the weight table. -/
def weightsName : String := "neighbour_count_texture"

/-- The size of the board. -/
def boardSizeName : String := "board_size"

/-- The cell that the shader writes. -/
def outputName : String := "next_state"

/-- The place of the cell that the shader computes. -/
def coordName : String := "coord"

/-- The function that reads a cell of the board. -/
def cellAtName : String := "get_cell_at"

/-- The function that closes the board onto itself. -/
def wrapName : String := "wrap_index"

/-- The function that reads a state field. -/
def getterName (field : String) : String := "get_cell_state_" ++ field

/-- The function that writes a state field. -/
def setterName (field : String) : String := "set_cell_state_" ++ field

/-- The variable that holds a state field as it was. -/
def prevLocal (field : String) : String := "cell_state_" ++ field

/-- The function that counts the neighbours of a kernel. -/
def countName (kernel : String) : String := "count_neighbours_" ++ kernel

/-- The variable that holds the count of a kernel. -/
def countLocal (kernel : String) : String := "neighbour_count_" ++ kernel

/-- The variable of the shader for a variable of the rule. -/
def userVar (name : String) : String := "user_var_" ++ name

/-! ## Terms

Short forms for terms that occur in several functions.  Parentheses are written where they stand in
the text, also where the ranks of the operators would not need them.
-/

/-- A binary operator of the rule language between two terms. -/
def Term.op (op : BinaryOp) (l r : Term) : Term := .binary (.rule op) l r

/-- A plain assignment. -/
def Code.set (target value : Term) : Code := .assign target .set value

/-- A rule integer.  The least one has no literal of its own, and a literal may not start with 0. -/
def intTerm (v : Int32) : Term :=
  if v = Int32.minValue then .paren (.op .sub (.int (-2147483647)) (.int 1))
  else if v < 0 then .paren (.int v.toInt)
  else .int v.toInt

/-- As many low bits set as a span is long. -/
def maskTerm (s : Span) : Term := .hex (Nat.pow 2 s.length - 1)

/-- The cell that an accessor works on. -/
def cellTerm : Term := .name cellName

/-- A coordinate of the board size. -/
def sizeTerm (axis : String) : Term := .member (.name boardSizeName) axis

/-! ## Fixed functions

Functions that are the same in every shader.  The one that closes the board onto itself is there
only if a kernel needs it.
-/

/-- Reads a cell of the board. -/
def cellAt : Function :=
  { type := .ivec4, name := cellAtName, params := [⟨.plain, .int, "x"⟩, ⟨.plain, .int, "y"⟩]
    body := [.result (.call "ivec4" [.call "texelFetch"
      [.name boardName, .call "ivec2" [.name "x", .name "y"], .int 0]])] }

/-- Moves a coordinate onto a board that closes onto itself.  The shading language leaves the
remainder of negative numbers open, so this one rounds a quotient down. -/
def wrapFunction : Function :=
  { type := .int, name := wrapName, params := [⟨.plain, .int, "i"⟩, ⟨.plain, .int, "size"⟩]
    body := [.result (.op .sub (.name "i") (.op .mul (.name "size") (.call "int" [.call "floor"
      [.op .div (.call "float" [.name "i"]) (.call "float" [.name "size"])]])))] }

/-! ## State accessors

A getter shifts and masks each span of a field and puts the results together; a setter takes the
value apart in the other direction.  A flag is one bit, and is a truth value to the rule.
-/

/-- The bits of a span, moved down. -/
def spanTerm (s : Span) : Term :=
  .binary .bitAnd (.paren (.binary .shiftRight (.component cellTerm s.byte) (.int s.low)))
    (maskTerm s)

/-- Reads a flag. -/
def flagGetter (s : Span) : List Code := [.result (.op .ne (.paren (spanTerm s)) (.int 0))]

/-- Reads a number, the most significant span first. -/
def numberGetter : List Span → List Code
  | [s] => [.result (spanTerm s)]
  | spans =>
    .declare .int "val" (.int 0)
      :: spans.map (fun s => .set (.name "val")
          (.binary .bitOr (.paren (.binary .shiftLeft (.name "val") (.int s.length)))
            (.paren (spanTerm s))))
      ++ [.result (.name "val")]

/-- Writes the bits `value` into a span, other bits of the byte staying as they are. -/
def spanUpdate (s : Span) (mask value : Term) : Code :=
  .set (.component cellTerm s.byte)
    (.binary .bitOr
      (.paren (.binary .bitAnd (.component cellTerm s.byte)
        (.unary .complement (.paren (.binary .shiftLeft mask (.int s.low))))))
      (.paren (.binary .shiftLeft (.paren value) (.int s.low))))

/-- Writes a flag. -/
def flagSetter (s : Span) : List Code :=
  [spanUpdate s (.hex 1) (.ternary (.name "val") (.int 1) (.int 0))]

/-- Writes a number into spans, the least significant first.  The value moves down behind every span
but the last. -/
def numberSetter : List Span → List Code
  | [] => []
  | s :: more =>
    spanUpdate s (maskTerm s) (.binary .bitAnd (.name "val") (maskTerm s))
      :: (if more.isEmpty then []
          else [.set (.name "val") (.binary .shiftRight (.name "val") (.int s.length))])
      ++ numberSetter more

/-- The shader type of a state field. -/
def fieldType (f : Field) : GType := if f.kind = .flag then .bool else .int

/-- The function that reads a state field. -/
def getter (f : Field) : Function :=
  { type := fieldType f, name := getterName f.name, params := [⟨.input, .ivec4, cellName⟩]
    body := if f.kind = .flag then flagGetter (f.spans.headD default) else numberGetter f.spans }

/-- The function that writes a state field. -/
def setter (f : Field) : Function :=
  { type := .void, name := setterName f.name
    params := [⟨.inputOutput, .ivec4, cellName⟩, ⟨.input, fieldType f, "val"⟩]
    body := if f.kind = .flag then flagSetter (f.spans.headD default)
      else numberSetter f.spans.reverse }

end Shader

/-! ## The rule

Code follows the tree of the rule case by case.  A name becomes a variable, a call of an accessor or
a variable that holds a count, depending on what its scope says of it.  In a checked rule only a
name of struct type has no code, since a shader has no such value.
-/

/-- What generating code gives, or the error of a rule that has none. -/
abbrev Generation (β : Type) := Except InternalError β

/-- The shader type of a variable of a rule. -/
def Ty.toShader : Ty → GType
  | .bool => .bool
  | .float => .float
  | _ => .int

/-- The shader type of a count. -/
def CountType.toShader : CountType → GType
  | .int => .int
  | .float => .float

/-- The value that a variable without an initial value starts with. -/
def Ty.zeroTerm : Ty → Term
  | .bool => .bool false
  | .float => .float "0.0"
  | _ => .int 0

/-- The code of a dotted name. -/
def Path.toTerm (ks : KernelSet) (note : Note) (path : Path) : Generation Term :=
  if note.type.kind = .struct then .error ⟨note.pos, .structValue path⟩
  else match note.scope.find? path.root with
    | none => .error ⟨note.pos, .unchecked path.root⟩
    | some (b, _) =>
      match path.rest with
      | [] =>
        if b.assignable then .ok (.name (userVar path.root))
        else if (ks.find? path.root).isSome then .ok (.name (countLocal path.root))
        else .error ⟨note.pos, .noAccess path⟩
      | [field] =>
        if b.assignable then .error ⟨note.pos, .noAccess path⟩
        else if path.root = cellName then .ok (.call (getterName field) [cellTerm])
        else if path.root = prevName then .ok (.name (prevLocal field))
        else .error ⟨note.pos, .noAccess path⟩
      | _ => .error ⟨note.pos, .noAccess path⟩

/-- The code of an expression; every operation keeps its parentheses. -/
def Expr.toTerm (ks : KernelSet) : Expr Note → Generation Term
  | .ternary _ test yes no => do
    let test ← test.toTerm ks
    let yes ← yes.toTerm ks
    let no ← no.toTerm ks
    return .paren (.ternary test yes no)
  | .binary _ op left right => do
    let left ← left.toTerm ks
    let right ← right.toTerm ks
    return .paren (.op op left right)
  | .unary _ op operand => do
    let operand ← operand.toTerm ks
    return .paren (.unary (.rule op) operand)
  | .cast _ target operand => do
    let operand ← operand.toTerm ks
    return .call target.text [operand]
  | .int _ v _ => .ok (intTerm v)
  | .float _ _ text => .ok (.float text)
  | .bool _ v => .ok (.bool v)
  | .access note path => path.toTerm ks note

/-- The value of a variable at its declaration. -/
def initTerm (ks : KernelSet) (t : Ty) : Option (Expr Note) → Generation Term
  | none => .ok t.zeroTerm
  | some e => e.toTerm ks

/-- The code of an assignment of the term `value`.  A field of the cell is written by its setter,
and combined with its old value before. -/
def assignCode (pos : Position) (target : Path) (op : AssignOp) (value : Term) : Generation Code :=
  match target.rest with
  | [] => .ok (.assign (.name (userVar target.root)) op value)
  | [field] =>
    if target.root = cellName then
      let stored := match op.binaryOp? with
        | none => value
        | some b => .paren (.op b (.call (getterName field) [cellTerm]) value)
      .ok (.call (.call (setterName field) [cellTerm, stored]))
    else .error ⟨pos, .noAssignment target⟩
  | _ => .error ⟨pos, .noAssignment target⟩

/-- The statements of a branch; the braces of a block are those of the branch. -/
def Shader.Code.branchBody : Code → List Code
  | .block body => body
  | c => [c]

mutual

/-- The code of a statement. -/
def Stmt.toCode (ks : KernelSet) : Stmt Note → Generation Code
  | .block _ body => do
    let body ← Stmt.toCodes ks body
    return .block body
  | .declare note _ name init => do
    let init ← initTerm ks note.type init
    return .declare note.type.toShader (userVar name) init
  | .assign note _ target op value => do
    let value ← value.toTerm ks
    assignCode note.pos target op value
  | .when _ test body => do
    let test ← test.toTerm ks
    let body ← Stmt.toCode ks body
    return .when test body.branchBody
  | .branch _ test yes no => do
    let test ← test.toTerm ks
    let yes ← Stmt.toCode ks yes
    let no ← Stmt.toCode ks no
    return .branch test yes.branchBody no.branchBody

/-- The code of statements in turn. -/
def Stmt.toCodes (ks : KernelSet) : List (Stmt Note) → Generation (List Code)
  | [] => .ok []
  | s :: ss => do
    let c ← Stmt.toCode ks s
    let cs ← Stmt.toCodes ks ss
    return c :: cs

end

/-! ## Counting neighbours

The loop bounds and the offset of the centre are literals.  A policy is a few statements between the
coordinates of a place and the read of its cell: it moves the coordinates, or goes on with the next
place.
-/

namespace Shader

/-- What a policy does to the coordinates of a visited cell. -/
def overflowCode : Overflow → List Code
  | .wrap =>
    let onto (c axis : String) : Code :=
      .set (.name c) (.call wrapName [.name c, sizeTerm axis])
    [onto "cx" "x", onto "cy" "y"]
  | .border =>
    let onto (c axis : String) : Code :=
      .set (.name c) (.call "clamp" [.name c, .int 0, .op .sub (sizeTerm axis) (.int 1)])
    [onto "cx" "x", onto "cy" "y"]
  | .zero =>
    let outside (c axis : String) : Term :=
      .op .or (.op .lt (.name c) (.int 0)) (.op .ge (.name c) (sizeTerm axis))
    [.when (.op .or (.op .or (outside "cx" "x") (.op .lt (.name "cy") (.int 0)))
      (.op .ge (.name "cy") (sizeTerm "y"))) [.skip]]

/-- The function that counts the neighbours of a kernel whose value function is `value`. -/
def countFunction (k : Kernel) (value : Term) : Function :=
  let start (c axis counter : String) (offset : Nat) : Code :=
    .declare .int c (.op .sub (.op .add (.member (.name coordName) axis) (.name counter))
      (.int offset))
  let weight : Term := .member (.call "texelFetch" [.name weightsName,
    .call "ivec3" [.name "ix", .name "iy", .int k.index], .int 0]) "x"
  let visit : List Code :=
    [start "cx" "x" "ix" k.offsetX, start "cy" "y" "iy" k.offsetY] ++ overflowCode k.overflow ++
      [.declare .float "mult" weight,
       .declare .ivec4 cellName (.call cellAtName [.name "cx", .name "cy"]),
       .declare .float "value" (.call "float" [value]),
       .assign (.name "count") (.update .add) (.op .mul (.name "mult") (.name "value"))]
  { type := k.result.toShader, name := countName k.name
    body :=
      [.declare .float "count" (.float "0.0"),
       .loop "ix" k.width [.loop "iy" k.height visit],
       .result (match k.result with
        | .float => .name "count"
        | .int => .call "int" [.name "count"])] }

/-- The counting functions of some kernels. -/
def countFunctions (ks : KernelSet) : List Kernel → Generation (List Function)
  | [] => .ok []
  | k :: more => do
    let value ← k.value.toTerm ks
    let others ← countFunctions ks more
    return countFunction k value :: others

/-! ## The whole shader

Functions stand before their first use: the fixed ones, the accessors, the counts, and the entry
point last.  The entry point keeps the fields as they were in variables before the rule runs, and
afterwards builds the output from the declared fields alone.
-/

/-- The entry point: count, run the rule on the cell, write the declared fields. -/
def mainFunction (l : Layout) (ks : KernelSet) (rule : List Code) : Function :=
  let read (f : Field) : Term := .call (getterName f.name) [cellTerm]
  { type := .void, name := "main"
    body :=
      .set (.name coordName) (.call "ivec2" [.member (.name "gl_FragCoord") "xy"])
        :: ks.kernels.map (fun k =>
            .declare k.result.toShader (countLocal k.name) (.call (countName k.name) []))
        ++ .declare .ivec4 cellName (.call cellAtName
            [.member (.name coordName) "x", .member (.name coordName) "y"])
        :: l.fields.map (fun f => .declare (fieldType f) (prevLocal f.name) (read f))
        ++ .comment "rule program" :: rule
        ++ .declare .ivec4 "next" (.call "ivec4" [.int 0])
        :: l.fields.map (fun f => .call (.call (setterName f.name) [.name "next", read f]))
        ++ [.set (.name outputName) (.call "uvec4" [.name "next"])] }

/-- The shader of a rule. -/
def generate (l : Layout) (ks : KernelSet) (p : Program Note) : Generation Shader := do
  let counts ← countFunctions ks ks.kernels
  let rule ← Stmt.toCodes ks p.body
  let wraps := if ks.kernels.any (·.overflow = .wrap) then [wrapFunction] else []
  return {
    precisions := [.float, .int, .usampler2D, .sampler2DArray]
    uniforms := [⟨.usampler2D, boardName⟩, ⟨.sampler2DArray, weightsName⟩, ⟨.ivec2, boardSizeName⟩]
    outputs := [⟨.uvec4, outputName⟩]
    globals := [⟨.ivec2, coordName⟩]
    functions := cellAt :: wraps ++ l.fields.flatMap (fun f => [getter f, setter f]) ++ counts
      ++ [mainFunction l ks rule] }

end Shader

end Cellular
