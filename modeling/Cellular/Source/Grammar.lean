import Cellular.Source.Token

/-!
# The grammar of rules

The grammar is a value, so that one function recognises by it, another one writes it in
diagnostics, and statements about what is derivable need no copy of it.

* `Grammar` is a grammar expression, `Production` a named rule of the grammar.
* `Production.body` is the grammar itself.
* `Grammar.text` writes a grammar expression the way diagnostics show it.

A grammar expression is a sequence, a choice, a repetition, an option, a token of a kind or of a
given text, or the name of a production.  The productions are a finite type and not strings, so a
grammar cannot name one that is missing.  Recognising and deriving are two readings of one value:
the first is a function, the second a relation, and they are proved to agree on the rule language.
-/

namespace Cellular

/-- The named rules of the grammar. -/
inductive Production where
  | program
  | stmt
  | block
  | cond
  | decl
  | assign
  | expr
  | chain
  | link
  | unary
  | primary
  | cast
  | access
deriving Repr, DecidableEq, Inhabited

/-- The name of a rule in diagnostics. -/
def Production.name : Production → String
  | .program => "ProgramNode"
  | .stmt => "StmtNode"
  | .block => "BlockNode"
  | .cond => "IfNode"
  | .decl => "DeclNode"
  | .assign => "AssignNode"
  | .expr => "ExprNode"
  | .chain => "BinaryNode"
  | .link => "OpTail"
  | .unary => "UnaryNode"
  | .primary => "PrimaryNode"
  | .cast => "CastNode"
  | .access => "AccessNode"

/-- Grammar expressions. -/
inductive Grammar where
  /-- A token with exactly this text. -/
  | literal (text : String)
  /-- Any token of a kind. -/
  | kind (kind : TokenKind)
  /-- What a named rule derives. -/
  | rule (production : Production)
  | seq (items : List Grammar)
  | alt (items : List Grammar)
  | optional (item : Grammar)
  | many (item : Grammar)
deriving Repr, Inhabited

/-- One of several literals. -/
def Grammar.oneOf (texts : List String) : Grammar := .alt (texts.map .literal)

/-- The right-hand side of a named rule. -/
def Production.body : Production → Grammar
  | .program => .many (.rule .stmt)
  | .stmt => .alt [.rule .block, .rule .cond, .rule .decl, .rule .assign]
  | .block => .seq [.literal "\x7b", .many (.rule .stmt), .literal "\x7d"]
  | .cond =>
    .seq [.literal "if", .literal "(", .rule .expr, .literal ")", .rule .stmt,
      .optional (.seq [.literal "else", .rule .stmt])]
  | .decl =>
    .seq [.oneOf ["bool", "int", "float"], .kind .ident,
      .optional (.seq [.literal "=", .rule .expr]), .literal ";"]
  | .assign =>
    .seq [.rule .access, .oneOf ["=", "+=", "-=", "*=", "/=", "%="], .rule .expr, .literal ";"]
  | .expr =>
    .seq [.rule .chain,
      .optional (.seq [.literal "?", .rule .expr, .literal ":", .rule .expr])]
  | .chain => .seq [.rule .unary, .many (.rule .link)]
  | .link =>
    .seq [.oneOf ["||", "&&", "==", "!=", "<=", ">=", "<", ">", "+", "-", "*", "/", "%"],
      .rule .unary]
  | .unary => .alt [.seq [.oneOf ["!", "-"], .rule .unary], .rule .primary]
  | .primary =>
    .alt [.kind .float, .kind .int, .oneOf ["true", "false"], .rule .cast, .rule .access,
      .seq [.literal "(", .rule .expr, .literal ")"]]
  | .cast =>
    .seq [.oneOf ["int", "float", "bool"], .literal "(", .rule .expr, .literal ")"]
  | .access => .seq [.kind .ident, .many (.seq [.literal ".", .kind .ident])]

namespace Grammar

mutual

/-- A grammar expression as diagnostics show it.  A sequence of one item is that item; longer ones
and alternatives stand in parentheses. -/
def text : Grammar → String
  | .literal t => Text.quote t
  | .kind k => "<" ++ k.name.toLower ++ ">"
  | .rule p => p.name
  | .seq [g] => text g
  | .seq items => "(" ++ " ".intercalate (texts items) ++ ")"
  | .alt [g] => text g
  | .alt items => "(" ++ " | ".intercalate (texts items) ++ ")"
  | .optional g => text g ++ "?"
  | .many g => text g ++ "*"

/-- The texts of several grammar expressions. -/
def texts : List Grammar → List String
  | [] => []
  | g :: gs => text g :: texts gs

end

/-- What is left of a sequence, as diagnostics show it. -/
def restText (items : List Grammar) : String := " ".intercalate (texts items)

end Grammar

end Cellular
