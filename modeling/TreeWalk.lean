import TreeWalk.Assoc
import TreeWalk.Builtin
import TreeWalk.Error
import TreeWalk.Eval.Assign
import TreeWalk.Eval.Call
import TreeWalk.Eval.Control
import TreeWalk.Eval.Evaluator
import TreeWalk.Eval.Event
import TreeWalk.Eval.Loop
import TreeWalk.Eval.MachineStack
import TreeWalk.Eval.Method
import TreeWalk.Eval.Node
import TreeWalk.Eval.Object
import TreeWalk.Eval.Schedule
import TreeWalk.Eval.Step
import TreeWalk.Eval.Visit
import TreeWalk.Format
import TreeWalk.Host
import TreeWalk.Method.Hash
import TreeWalk.Method.Object
import TreeWalk.Method.Scalar
import TreeWalk.Method.Sequence
import TreeWalk.Method.String
import TreeWalk.Method.Table
import TreeWalk.Module.Cache
import TreeWalk.Number.Binary
import TreeWalk.Number.Decimal
import TreeWalk.Number.Double
import TreeWalk.Number.Reader
import TreeWalk.Number.Word
import TreeWalk.Position
import TreeWalk.Proofs.Atomic.Access
import TreeWalk.Proofs.Atomic.Finding
import TreeWalk.Proofs.Atomic.InPlace
import TreeWalk.Proofs.Atomic.Method
import TreeWalk.Proofs.Atomic.Native
import TreeWalk.Proofs.Atomic.Operator
import TreeWalk.Proofs.Atomic.Sound
import TreeWalk.Proofs.Eval.Aligned
import TreeWalk.Proofs.Eval.Alike
import TreeWalk.Proofs.Eval.Arithmetic
import TreeWalk.Proofs.Eval.Arity
import TreeWalk.Proofs.Eval.Assign
import TreeWalk.Proofs.Eval.Balance
import TreeWalk.Proofs.Eval.Binding
import TreeWalk.Proofs.Eval.Call
import TreeWalk.Proofs.Eval.Confinement
import TreeWalk.Proofs.Eval.Consistency
import TreeWalk.Proofs.Eval.Control
import TreeWalk.Proofs.Eval.Deferral
import TreeWalk.Proofs.Eval.Delivery
import TreeWalk.Proofs.Eval.Diagnosis
import TreeWalk.Proofs.Eval.Discipline
import TreeWalk.Proofs.Eval.Dispatch
import TreeWalk.Proofs.Eval.Elementwise
import TreeWalk.Proofs.Eval.Entries
import TreeWalk.Proofs.Eval.Enum
import TreeWalk.Proofs.Eval.Evaluator
import TreeWalk.Proofs.Eval.Failure
import TreeWalk.Proofs.Eval.Hygiene
import TreeWalk.Proofs.Eval.Inspect
import TreeWalk.Proofs.Eval.Invariant
import TreeWalk.Proofs.Eval.Lexical
import TreeWalk.Proofs.Eval.Literal
import TreeWalk.Proofs.Eval.Loop
import TreeWalk.Proofs.Eval.Membership
import TreeWalk.Proofs.Eval.Method
import TreeWalk.Proofs.Eval.Node
import TreeWalk.Proofs.Eval.Output
import TreeWalk.Proofs.Eval.Pact
import TreeWalk.Proofs.Eval.Place
import TreeWalk.Proofs.Eval.Progress
import TreeWalk.Proofs.Eval.Range
import TreeWalk.Proofs.Eval.Registration
import TreeWalk.Proofs.Eval.Runs
import TreeWalk.Proofs.Eval.Slice
import TreeWalk.Proofs.Eval.Solo
import TreeWalk.Proofs.Eval.Suggestion
import TreeWalk.Proofs.Eval.Watch
import TreeWalk.Proofs.Format.Filling
import TreeWalk.Proofs.Format.Grammar
import TreeWalk.Proofs.Format.Integer
import TreeWalk.Proofs.Fuel.Concurrence
import TreeWalk.Proofs.Fuel.Evaluator
import TreeWalk.Proofs.Fuel.Expression
import TreeWalk.Proofs.Halting.Call
import TreeWalk.Proofs.Halting.Control
import TreeWalk.Proofs.Halting.Depth
import TreeWalk.Proofs.Halting.Expression
import TreeWalk.Proofs.Halting.Loop
import TreeWalk.Proofs.Halting.Method
import TreeWalk.Proofs.Halting.Node
import TreeWalk.Proofs.Halting.Rules
import TreeWalk.Proofs.Halting.Termination
import TreeWalk.Proofs.Halting.Unit
import TreeWalk.Proofs.Method.Edit
import TreeWalk.Proofs.Method.Integer
import TreeWalk.Proofs.Method.Sort
import TreeWalk.Proofs.Method.String
import TreeWalk.Proofs.Method.Table
import TreeWalk.Proofs.Module.Cache
import TreeWalk.Proofs.Number.Double
import TreeWalk.Proofs.Number.Numeral
import TreeWalk.Proofs.Number.Reader
import TreeWalk.Proofs.Number.Word
import TreeWalk.Proofs.Placement.Control
import TreeWalk.Proofs.Placement.Course
import TreeWalk.Proofs.Placement.Expression
import TreeWalk.Proofs.Placement.Node
import TreeWalk.Proofs.Position
import TreeWalk.Proofs.Sorted
import TreeWalk.Proofs.Store.Closed
import TreeWalk.Proofs.Store.Comparison
import TreeWalk.Proofs.Store.Data
import TreeWalk.Proofs.Store.Equality
import TreeWalk.Proofs.Store.Growth
import TreeWalk.Proofs.Store.Names
import TreeWalk.Proofs.Store.Nesting
import TreeWalk.Proofs.Store.Place
import TreeWalk.Proofs.Store.Recursion
import TreeWalk.Proofs.Store.Reordered
import TreeWalk.Proofs.Store.Shadowing
import TreeWalk.Proofs.Suggest.Choice
import TreeWalk.Proofs.Suggest.Distance
import TreeWalk.Proofs.Suggest.Edit
import TreeWalk.Proofs.Sync.Call
import TreeWalk.Proofs.Sync.Closing
import TreeWalk.Proofs.Sync.Condition
import TreeWalk.Proofs.Sync.Increment
import TreeWalk.Proofs.Sync.Lock
import TreeWalk.Proofs.Sync.Traffic
import TreeWalk.Proofs.Sync.WaitGroup
import TreeWalk.Proofs.Syntax.Deferral
import TreeWalk.Proofs.Syntax.Escape
import TreeWalk.Proofs.Syntax.LoopFree
import TreeWalk.Proofs.Syntax.Placement
import TreeWalk.Proofs.Text.Search
import TreeWalk.Proofs.Text.Split
import TreeWalk.Proofs.Text.Trim
import TreeWalk.Proofs.Twin.Atomic
import TreeWalk.Proofs.Twin.Eval
import TreeWalk.Proofs.Twin.Observation
import TreeWalk.Proofs.Twin.Store
import TreeWalk.Proofs.Twin.Value
import TreeWalk.Proofs.Value.Dict
import TreeWalk.Proofs.Value.Ledger
import TreeWalk.Proofs.Value.Merge
import TreeWalk.Proofs.Value.Range
import TreeWalk.Proofs.Value.Sequence
import TreeWalk.Proofs.Value.Within
import TreeWalk.Regex
import TreeWalk.Regex.Automaton
import TreeWalk.Regex.Footprint
import TreeWalk.Regex.Look
import TreeWalk.Regex.Meaning
import TreeWalk.Regex.Pattern
import TreeWalk.Regex.Property
import TreeWalk.Regex.Reader
import TreeWalk.Regex.Tree
import TreeWalk.Regex.Utf8
import TreeWalk.Session
import TreeWalk.Sorted
import TreeWalk.Store.Access
import TreeWalk.Store.Atomic
import TreeWalk.Store.Basic
import TreeWalk.Store.Equality
import TreeWalk.Store.Literal
import TreeWalk.Store.Operator
import TreeWalk.Store.Place
import TreeWalk.Store.Render
import TreeWalk.Suggest
import TreeWalk.Sync.Channel
import TreeWalk.Sync.Lock
import TreeWalk.Syntax.Operator
import TreeWalk.Syntax.Tree
import TreeWalk.Text.Age
import TreeWalk.Text.Boundary
import TreeWalk.Text.Category
import TreeWalk.Text.CharClass
import TreeWalk.Text.CharSet
import TreeWalk.Text.Emoji
import TreeWalk.Text.Identifier
import TreeWalk.Text.Ideograph
import TreeWalk.Text.LetterCase
import TreeWalk.Text.Partition
import TreeWalk.Text.Quoted
import TreeWalk.Text.Script
import TreeWalk.Text.Search
import TreeWalk.Text.Sign
import TreeWalk.Value.Basic
import TreeWalk.Value.Dict
import TreeWalk.Value.Handle
import TreeWalk.Value.Key
import TreeWalk.Value.Sequence
