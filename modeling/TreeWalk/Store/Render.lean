/-
The text of values.

`display` is what printing and interpolation show.  Inside of containers strings
stand in quotes, which is `inspect`.  A NULL scalar shows that it is invalid, and
never what it held.

The text of a container is made from the texts of what it refers to.  One step
through references is `showWith`, and `display` repeats it as often as references
can follow each other.
-/
import TreeWalk.Number.Decimal
import TreeWalk.Store.Basic

namespace TreeWalk

/-- The text of a value inside of a container, given its text elsewhere. -/
def Value.quoted (text : Value → String) (v : Value) : String :=
  match v.string? with
  | some s => "\"" ++ s ++ "\""
  | none => text v

namespace Store

def commas (parts : List String) : String := ", ".intercalate parts

/-- The members of a struct that are no methods, by name. -/
def structFields (σ : Store) (scope : ScopeId) (methods : List String) : List (String × Value) :=
  Assoc.sorted ((σ.members scope).filter fun member => !methods.contains member.1)

/-- How a function is shown: its name and its parameters. -/
def functionText (lit : FunctionLit) : String :=
  "fn " ++ lit.displayName ++ "(" ++ commas (lit.params.map (·.name)) ++
    (if lit.variadic then "..." else "") ++ ")"

/-- The text of a scalar that is not NULL. -/
def scalarText {α : Type} (kind : String) (text : α → String) (n : Nullable α) : String :=
  match n.get? with
  | some a => text a
  | none => "error: invalid " ++ kind ++ " (null)"

mutual

/-- The text of a value, where `inner` shows what lies behind a reference. -/
def showWith (σ : Store) (inner : Value → String) : Value → String
  | .int n => scalarText "INTEGER" (fun n => toString n.toInt) n
  | .float x => scalarText "FLOAT" Decimal.text x
  | .bool b =>
    if b.valid then if b.value then "true" else "false" else "error: invalid BOOLEAN (null)"
  | .nil message => message.getD "nil"
  | .str s => scalarText "STRING" id s
  | .array id => "[" ++ commas ((σ.array id).toList.map inner) ++ "]"
  | .tuple items _ => "(" ++ commas (showItems σ inner items) ++ ")"
  | .hash id =>
    "\x7b" ++ commas ((σ.dict id).toList.map fun e => inner e.key ++ " : " ++ inner e.value) ++
      "\x7d"
  | .struct scope methods =>
    "struct \x7b" ++ commas ((σ.structFields scope methods).map fun (name, v) =>
      name ++ " : " ++ inner v) ++ "\x7d"
  | .enum scope variants =>
    "enum \x7b" ++ commas (variants.map fun name =>
      match σ.getLocal? scope name with
      | some v => name ++ " : " ++ inner v
      | none => name) ++ "\x7d"
  | .function f => functionText f.lit
  | .native f => "builtin " ++ f.name
  | .range r => r.text
  | .channel _ => "channel"
  | .module m => "module " ++ m.name
  | .object o => "<" ++ o.kind ++ ">"

def showItems (σ : Store) (inner : Value → String) : List Value → List String
  | [] => []
  | v :: rest =>
    (match v.string? with
      | some s => "\"" ++ s ++ "\""
      | none => showWith σ inner v) :: showItems σ inner rest

end

/-- The text of a value behind up to `fuel` references. -/
def displayWithin (σ : Store) : Nat → Value → String
  | 0 => σ.showWith fun _ => "..."
  | fuel + 1 => σ.showWith (Value.quoted (displayWithin σ fuel))

def display (σ : Store) (v : Value) : String := σ.displayWithin σ.depth v

/-- The text of a value inside of a container. -/
def inspect (σ : Store) (v : Value) : String := v.quoted σ.display

/-- Whether a value counts as true: not NULL, zero, empty, `nil` or `false`. -/
def truthy (σ : Store) (v : Value) : Bool :=
  match v with
  | .int n => n.valid && n.payload != 0
  | .float x => x.valid && x.payload != .zero
  | .bool b => b.valid && b.value
  | .nil _ => false
  | .str s => s.valid && s.payload != ""
  | .array id => !(σ.array id).isEmpty
  | .tuple items _ => !items.isEmpty
  | .hash id => !(σ.dict id).isEmpty
  | _ => true

end Store
end TreeWalk
