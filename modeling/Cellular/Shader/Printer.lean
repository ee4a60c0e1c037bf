import Cellular.Shader.Code
import Cellular.Text.Quoted

/-!
# Writing shaders

* `Term.text` writes an expression.
* `Code.lines` writes a statement as indented lines.
* `Shader.text` writes a whole shader.

The printer decides on blanks, line breaks and indentation, and on nothing else.  It puts a term in
parentheses where the tree does so and nowhere else; whether the text is then read as the same tree
is a question about the ranks of the operators, which the check of a shader answers.
-/

namespace Cellular.Shader

mutual

/-- An expression as it is written. -/
def Term.text : Term → String
  | .name id => id
  | .int n => toString n
  | .hex n => "0x" ++ Text.hex 1 n
  | .float text => text
  | .bool b => if b then "true" else "false"
  | .paren t => "(" ++ t.text ++ ")"
  | .binary op l r => l.text ++ " " ++ op.symbol ++ " " ++ r.text
  | .unary op t => op.symbol ++ t.text
  | .ternary c a b => c.text ++ " ? " ++ a.text ++ " : " ++ b.text
  | .call f args => f ++ "(" ++ ", ".intercalate (Term.texts args) ++ ")"
  | .component v i => v.text ++ "[" ++ toString i ++ "]"
  | .member v part => v.text ++ "." ++ part

/-- Several expressions as they are written. -/
def Term.texts : List Term → List String
  | [] => []
  | t :: ts => t.text :: Term.texts ts

end

/-- A line of a shader at a depth of nesting. -/
def lineAt (depth : Nat) (s : String) : String := Text.repeated depth "    " ++ s ++ "\n"

mutual

/-- A statement as lines at a depth of nesting. -/
def Code.lines (depth : Nat) : Code → String
  | .declare type name init => lineAt depth (type.name ++ " " ++ name ++ " = " ++ init.text ++ ";")
  | .assign target op value =>
    lineAt depth (target.text ++ " " ++ op.symbol ++ " " ++ value.text ++ ";")
  | .call t => lineAt depth (t.text ++ ";")
  | .block body => lineAt depth "\x7b" ++ Code.linesAll (depth + 1) body ++ lineAt depth "\x7d"
  | .when test body =>
    lineAt depth ("if (" ++ test.text ++ ") \x7b") ++ Code.linesAll (depth + 1) body
      ++ lineAt depth "\x7d"
  | .branch test yes no =>
    lineAt depth ("if (" ++ test.text ++ ") \x7b") ++ Code.linesAll (depth + 1) yes
      ++ lineAt depth "\x7d else \x7b" ++ Code.linesAll (depth + 1) no ++ lineAt depth "\x7d"
  | .loop counter bound body =>
    lineAt depth ("for (int " ++ counter ++ " = 0; " ++ counter ++ " < " ++ toString bound ++ "; "
        ++ counter ++ "++) \x7b")
      ++ Code.linesAll (depth + 1) body ++ lineAt depth "\x7d"
  | .skip => lineAt depth "continue;"
  | .result t => lineAt depth ("return " ++ t.text ++ ";")
  | .comment text => lineAt depth ("// " ++ text)

/-- Statements as lines at a depth of nesting. -/
def Code.linesAll (depth : Nat) : List Code → String
  | [] => ""
  | c :: cs => Code.lines depth c ++ Code.linesAll depth cs

end

/-- A parameter as it is written. -/
def Param.text (p : Param) : String :=
  let passing := match p.passing with
    | .plain => ""
    | .input => "in "
    | .inputOutput => "inout "
  passing ++ p.type.name ++ " " ++ p.name

/-- A function definition as it is written. -/
def Function.text (f : Function) : String :=
  lineAt 0 (f.type.name ++ " " ++ f.name ++ "(" ++ ", ".intercalate (f.params.map Param.text)
      ++ ") \x7b")
    ++ Code.linesAll 1 f.body ++ lineAt 0 "\x7d"

/-- A declaration outside all functions, behind a word that says what it is for. -/
def Global.text (word : String) (g : Global) : String :=
  lineAt 0 (word ++ g.type.name ++ " " ++ g.name ++ ";")

/-- A whole shader as it is written: declarations in groups, then functions, with a blank line
before each. -/
def text (s : Shader) : String :=
  lineAt 0 "#version 300 es"
    ++ String.join (s.precisions.map fun t => lineAt 0 ("precision highp " ++ t.name ++ ";"))
    ++ "\n" ++ String.join (s.uniforms.map (Global.text "uniform "))
    ++ "\n" ++ String.join (s.outputs.map (Global.text "out "))
    ++ "\n" ++ String.join (s.globals.map (Global.text ""))
    ++ String.join (s.functions.map fun f => "\n" ++ f.text)

end Cellular.Shader
