/-
Syntax trees.

A program is a list of statements.  Loops, conditionals, `case` and `try` are
expressions, because each of them has a value.  Every expression and statement
is a form together with a position; the position is unknown for nodes that were
not read from a source text.
-/
import TreeWalk.Number.Double
import TreeWalk.Position
import TreeWalk.Syntax.Operator

namespace TreeWalk

/-- How `case` compares its subject with a pattern: by equality, or by taking
the displayed pattern as a regular expression over the displayed subject. -/
inductive CaseMode where
  | equal | matching
  deriving DecidableEq, Repr, Inhabited

/-- What a `catch` clause accepts. -/
inductive CatchPattern where
  /-- Exactly this message. -/
  | message (text : String)
  /-- The message held by a bound name; an unbound name accepts every message
  and is bound to it. -/
  | name (name : String)
  | any
  deriving DecidableEq, Repr, Inhabited

mutual

structure Expr where
  pos : Position
  form : Form

inductive Form where
  | ident (name : String)
  | int (value : Int64)
  | float (value : Double)
  | str (text : String)
  | bool (value : Bool)
  | nil
  /-- A string with holes. -/
  | interpolated (parts : List TextPart)
  | array (items : List Expr)
  | hash (pairs : List (Expr × Expr))
  | tuple (items : List Expr)
  /-- `start..stop`, both ends included. -/
  | range (start stop : Expr)
  | function (lit : FunctionLit)
  | struct (body : List Stmt)
  | enum (variants : List (String × Option Expr))
  | prefixed (op : PrefixOp) (operand : Expr)
  | infixed (op : InfixOp) (left right : Expr)
  | postfixed (op : PostfixOp) (target : Expr)
  | assign (op : AssignOp) (target value : Expr)
  | ternary (cond yes no : Expr)
  /-- `left |> f(args)` -/
  | pipe (left right : Expr)
  | call (callee : Expr) (args : List Expr)
  | method (receiver : Expr) (name : String) (args : List Expr)
  | member (object : Expr) (name : String)
  | index (object key : Expr)
  | slice (object : Expr) (start stop : Option Expr)
  | conditional (branches : List (Expr × List Stmt)) (otherwise : Option (List Stmt))
  | unlessThen (cond : Expr) (body : List Stmt) (otherwise : Option (List Stmt))
  | whileLoop (cond : Expr) (body : List Stmt)
  /-- Runs until `break`. -/
  | forever (body : List Stmt)
  | forLoop (init : Option Stmt) (cond update : Option Expr) (body : List Stmt)
  /-- With one name, hashes bind the key and other sequences the element; with
  two, the first is bound to the key or index. -/
  | forEach (key : Option String) (value : String) (iterable : Expr) (filter : Option Expr)
      (body : List Stmt)
  | arrayOf (key : Option String) (value : String) (iterable : Expr) (filter : Option Expr)
      (output : Expr)
  | hashOf (key : Option String) (value : String) (iterable : Expr) (filter : Option Expr)
      (outputKey outputValue : Expr)
  | grep (name : String) (iterable cond : Expr)
  | map (name : String) (iterable body : Expr)
  | caseOf (subject : Expr) (mode : CaseMode) (arms : List (List Expr × List Stmt))
      (otherwise : Option (List Stmt))
  | tryCatch (body : List Stmt) (catches : List (CatchPattern × List Stmt))
      (cleanup : Option (List Stmt))
  | include (path : String)

inductive TextPart where
  | text (text : String)
  | hole (expr : Expr)

structure FunctionLit where
  /-- The declared name, if there is one. -/
  name : Option String
  params : List Param
  /-- The last parameter collects the arguments beyond the others. -/
  variadic : Bool
  body : List Stmt

structure Param where
  name : String
  default : Option Expr

structure Stmt where
  pos : Position
  form : StmtForm

inductive StmtForm where
  | bind (names : List String) (values : List Expr)
  | ret (values : List Expr)
  | expr (expr : Expr)
  | function (name : String) (lit : FunctionLit)
  | defer (call : Expr)
  | spawn (call : Expr)
  | throw (value : Expr)
  | break
  | continue
  | block (body : List Stmt)

end

abbrev Block := List Stmt

abbrev Program := List Stmt

namespace Expr

/-- A node that has no place in a source text. -/
def bare (form : Form) : Expr := ⟨.unknown, form⟩

/-- Whether the node is one of the call forms that `defer`, `spawn` and `|>`
accept. -/
def isCall (e : Expr) : Bool :=
  match e.form with
  | .call .. | .method .. => true
  | _ => false

/-- The call `e` with `first` put before its arguments; `none` if `e` is no call. -/
def withFirstArgument? (e first : Expr) : Option Expr :=
  match e.form with
  | .call callee args => some ⟨e.pos, .call callee (first :: args)⟩
  | .method receiver name args => some ⟨e.pos, .method receiver name (first :: args)⟩
  | _ => none

theorem isSome_withFirstArgument? (e first : Expr) :
    (e.withFirstArgument? first).isSome = e.isCall := by
  obtain ⟨pos, form⟩ := e
  cases form <;> rfl

end Expr

instance : Inhabited Expr := ⟨⟨.unknown, .nil⟩⟩

instance : Inhabited Stmt := ⟨⟨.unknown, .break⟩⟩

namespace FunctionLit

/-- The name shown for a function: the declared one, or `fn`. -/
def displayName (lit : FunctionLit) : String := lit.name.getD "fn"

/-- The number of parameters that take one argument each: all but the one that
collects the rest. -/
def fixedCount (lit : FunctionLit) : Nat :=
  if lit.variadic then lit.params.length - 1 else lit.params.length

def fixedParams (lit : FunctionLit) : List Param := lit.params.take lit.fixedCount

/-- The number of leading fixed parameters without a default value. -/
def requiredCount (lit : FunctionLit) : Nat :=
  (lit.fixedParams.takeWhile (·.default.isNone)).length

end FunctionLit

end TreeWalk
