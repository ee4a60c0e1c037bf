import Cellular.Config.Basic

/-!
# Life-like rules

A ruleset is a short form of a configuration: live and dead cells, their ages, and the eight
neighbours of a cell on a board that closes onto itself.

* `Ruleset.validate` says which rulesets are meaningful.
* `Ruleset.expand` writes a ruleset as a configuration.
* `presets` are the rulesets with names.

The expansion goes through the text of a program: it is a rule like any other, and is read, checked
and compiled like one.  The program compares the neighbour total with each number of a list, so that
lists need no form of their own in the rule language.  Parts of a ruleset that say nothing leave no
trace in the program.
-/

namespace Cellular

/-- The largest age that a cell can have. -/
def maxAge : Nat := 255

namespace Ruleset

/-- Whether all totals of a list are totals of eight neighbours. -/
def checkTotals (path : String) : List Int → Except ConfigError Unit
  | [] => .ok ()
  | n :: more =>
    if n < 0 || 8 < n then .error ⟨path, .neighbourTotal n⟩ else checkTotals path more

/-- Whether the totals and ages of a ruleset are in range. -/
def validate (r : Ruleset) : Except ConfigError Unit := do
  checkTotals "ruleset.survive" r.survive
  checkTotals "ruleset.birth" r.birth
  if r.naturalDeath < 0 || maxAge < r.naturalDeath then
    .error ⟨"ruleset.natural_death", .deathAge r.naturalDeath maxAge⟩
  else if r.starve < 0 || maxAge < r.starve then
    .error ⟨"ruleset.starve", .starvationDelay r.starve maxAge⟩
  else .ok ()

/-- The condition that the neighbour total is one of a list. -/
def anyOf : List Int → String
  | [] => "false"
  | totals => " || ".intercalate (totals.map fun n => s!"neighbours == {n}")

/-- The condition that a live cell stays alive by the rule. -/
def survival (r : Ruleset) : String :=
  if 0 < r.naturalDeath then s!"({anyOf r.survive}) && cell.age < {r.naturalDeath}"
  else anyOf r.survive

/-- What happens to a live cell that the rule lets die. -/
def deathLines (r : Ruleset) : List String :=
  if 0 < r.starve then
    [s!"        if (cell.age < {r.starve}) \x7b",
     "            cell.age += 1;",
     "        \x7d else \x7b",
     "            cell.alive = false;",
     "            cell.age = 0;",
     "        \x7d"]
  else
    ["        cell.alive = false;",
     "        cell.age = 0;"]

/-- The ruleset as a program.  The age of a live cell counts the generations since its birth and
stops at its largest value. -/
def program (r : Ruleset) : String :=
  String.join <| List.map (· ++ "\n") <|
    ["if (cell.alive) \x7b",
     "    if (!(" ++ r.survival ++ ")) \x7b"]
    ++ r.deathLines ++
    [s!"    \x7d else if (cell.age < {maxAge}) \x7b",
     "        cell.age += 1;",
     "    \x7d",
     "\x7d else \x7b",
     "    cell.age = 0;",
     "    if (" ++ anyOf r.birth ++ ") \x7b",
     "        cell.alive = true;",
     "    \x7d",
     "\x7d"]

/-- The eight neighbours of a cell on a board that closes onto itself. -/
def neighbours : KernelSpec :=
  { name := "neighbours"
    matrix := [[1, 1, 1], [1, 0, 1], [1, 1, 1]]
    valueFn := "cell.alive ? 1 : 0"
    type := "int"
    overflow := "wrap" }

/-- The ruleset as a configuration: a flag for life, an age, the eight neighbours, and a program. -/
def expand (r : Ruleset) : Except ConfigError Config := do
  r.validate
  return {
    state := [{ name := "alive", type := "flag" }, { name := "age", type := "number", length := 8 }]
    neighbourCounts := [neighbours]
    program := r.program }

end Ruleset

/-- The rulesets with names, in the order of their names. -/
def presets : List (String × Ruleset) := [
  ("castle", { survive := [2, 3, 4, 5], birth := [4, 5, 6, 7, 8] }),
  ("custom", { survive := [1, 2, 3, 4, 5], birth := [3] }),
  ("densemaze", { survive := [2, 3], birth := [2], starve := 3 }),
  ("diam", { survive := [5], birth := [3, 4, 5] }),
  ("dnn", { survive := [3, 4, 5, 7, 8], birth := [3, 6, 7, 8] }),
  ("gol", { survive := [2, 3], birth := [3] }),
  ("maze", { survive := [1, 2, 3, 4, 5], birth := [3] }),
  ("seeds", { survive := [], birth := [2] }),
  ("twotwo", { survive := [1, 2, 5], birth := [3, 6] })]

/-- The names of the presets. -/
def presetNames : String := ", ".intercalate (presets.map (·.1))

end Cellular
