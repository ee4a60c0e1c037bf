import Cellular.Rule.Ty
import Cellular.Text.Quoted

/-!
# Scopes

A scope is the chain of names visible at one place of a rule.  Binding a name puts a link in front
and leaves the chain behind it as it is, so a scope kept beside an expression never changes.

* `Scope.find?` finds the innermost binding of a name together with its `Slot`.
* `Scope.declaredSince` looks only at the links newer than a given depth.
* `Scope.names` and `Scope.listing` show what is visible.

The depth of a chain is the number of its links, and it numbers the links: the slot of a binding is
the depth below it.  A declaration in an inner block has a slot of its own even where it has the
name of an outer one.  Slots are used again behind the end of a block, when nothing can reach the
older binding any more.
-/

namespace Cellular

/-- One link of a scope: a name, its type, and whether it is a variable that a rule may assign to.
Names that come with the automaton are read-only. -/
structure Binding where
  name : String
  type : Ty
  assignable : Bool := false
deriving Repr, Inhabited

/-- The names visible at one place, the innermost first. -/
abbrev Scope := List Binding

/-- The number of links below a binding.  Within one chain it names the binding. -/
abbrev Slot := Nat

namespace Scope

/-- A scope with one more read-only name. -/
def builtin (s : Scope) (name : String) (type : Ty) : Scope := ⟨name, type, false⟩ :: s

/-- A scope with one more variable. -/
def declare (s : Scope) (name : String) (type : Ty) : Scope := ⟨name, type, true⟩ :: s

/-- The innermost binding of a name, and its slot. -/
def find? : Scope → String → Option (Binding × Slot)
  | [], _ => none
  | b :: outer, name => if b.name = name then some (b, outer.length) else find? outer name

/-- Whether a variable of that name was declared in the links above the first `depth`. -/
def declaredSince (s : Scope) (depth : Nat) (name : String) : Bool :=
  (s.take (s.length - depth)).any fun b => b.name = name && b.assignable

/-- Adds to the names seen so far those of a chain of bindings, outermost first. -/
def collect (seen : List String) : List Binding → List String
  | [] => seen
  | b :: inner => collect (if b.name ∈ seen then seen else seen ++ [b.name]) inner

/-- The visible names, outermost first, each once. -/
def names (s : Scope) : List String := collect [] s.reverse

/-- One line per visible name with its sort and its type. -/
def listing (s : Scope) : String :=
  String.join <| s.names.filterMap fun name =>
    (s.find? name).map fun (b, _) =>
      "  " ++ Text.padRight 20 name ++ " "
        ++ Text.padRight 8 (if b.assignable then "var" else "builtin") ++ " " ++ b.type.text ++ "\n"

end Scope

end Cellular
