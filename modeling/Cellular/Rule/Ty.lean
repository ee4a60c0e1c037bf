/-!
# Types of the rule language

* `Kind` tells the kinds of types apart; it has a code and a name.
* `Ty` is a type; a struct type has named properties in order.
* `TypeName` is a type as a rule text names it.

The record of a cell has a struct type whose properties are the declared fields, so that reading a
field is one case of a dotted name and needs no rule of its own.  There are no values of struct
types: a struct is only looked into.
-/

namespace Cellular

/-- The kinds of types.  `other` stands for the codes that no kind has. -/
inductive Kind where
  | invalid
  | boolean
  | float
  | int
  | struct
  | other (code : Int)
deriving Repr, DecidableEq, Inhabited

namespace Kind

/-- The kind with a given code. -/
def ofCode : Int → Kind
  | 0 => .invalid
  | 1 => .boolean
  | 2 => .float
  | 3 => .int
  | 4 => .struct
  | n => .other n

/-- The name of a kind in diagnostics. -/
def name : Kind → String
  | .invalid => "Invalid"
  | .boolean => "Boolean"
  | .float => "Float"
  | .int => "Int"
  | .struct => "Struct"
  | .other code => s!"Kind({code})"

end Kind

/-- A type of the rule language.  `invalid` is the type of what was not checked. -/
inductive Ty where
  | invalid
  | bool
  | float
  | int
  | struct (props : List (String × Ty))
  | other (code : Int)
deriving Repr, Inhabited

namespace Ty

/-- The kind of a type. -/
def kind : Ty → Kind
  | .invalid => .invalid
  | .bool => .boolean
  | .float => .float
  | .int => .int
  | .struct _ => .struct
  | .other code => .other code

/-- The type without properties that has a given kind. -/
def ofKind : Kind → Ty
  | .invalid => .invalid
  | .boolean => .bool
  | .float => .float
  | .int => .int
  | .struct => .struct []
  | .other code => .other code

/-- The properties of a struct type in order; other types have none. -/
def props : Ty → List (String × Ty)
  | .struct ps => ps
  | _ => []

/-- The type of the first property of that name. -/
def prop? (t : Ty) (name : String) : Option Ty := t.props.lookup name

/-- Whether the type has numbers for values. -/
def isNumeric : Ty → Bool
  | .int | .float => true
  | _ => false

mutual

/-- Whether two types are the same; struct types have the same properties in the same order. -/
def equal : Ty → Ty → Bool
  | .invalid, .invalid => true
  | .bool, .bool => true
  | .float, .float => true
  | .int, .int => true
  | .struct ps, .struct qs => equalProps ps qs
  | .other c, .other d => c = d
  | _, _ => false

/-- Whether two lists of properties are the same. -/
def equalProps : List (String × Ty) → List (String × Ty) → Bool
  | [], [] => true
  | (n, t) :: ps, (m, u) :: qs => n = m && equal t u && equalProps ps qs
  | _, _ => false

end

mutual

/-- The text of a type in diagnostics. -/
def text : Ty → String
  | .invalid => Kind.invalid.name
  | .bool => Kind.boolean.name
  | .float => Kind.float.name
  | .int => Kind.int.name
  | .struct ps => "Struct\x7b" ++ ", ".intercalate (propTexts ps) ++ "\x7d"
  | .other code => (Kind.other code).name

/-- The texts of the properties of a struct type. -/
def propTexts : List (String × Ty) → List String
  | [] => []
  | (n, t) :: ps => (n ++ ": " ++ text t) :: propTexts ps

end

end Ty

/-- A type as a rule text names it, in a declaration or a conversion. -/
inductive TypeName where
  | bool
  | int
  | float
  /-- A name that the language does not know. -/
  | unknown (name : String)
deriving Repr, DecidableEq, Inhabited

namespace TypeName

/-- How the name is written. -/
def text : TypeName → String
  | .bool => "bool"
  | .int => "int"
  | .float => "float"
  | .unknown name => name

/-- The type name with a given spelling. -/
def ofText : String → TypeName
  | "bool" => .bool
  | "int" => .int
  | "float" => .float
  | s => .unknown s

/-- The type that is named, if the language knows the name. -/
def type? : TypeName → Option Ty
  | .bool => some .bool
  | .int => some .int
  | .float => some .float
  | .unknown _ => none

end TypeName

end Cellular
