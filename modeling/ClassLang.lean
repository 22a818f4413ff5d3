import ClassLang.Main
import ClassLang.Proofs.Accepted
import ClassLang.Proofs.Dict
import ClassLang.Proofs.Tree.Relocate
import ClassLang.Proofs.Grammar.Admitted
import ClassLang.Proofs.Eval.Alike
import ClassLang.Proofs.Eval.Simulation
import ClassLang.Proofs.Grammar.Faults
import ClassLang.Proofs.Eval.Safety
import ClassLang.Proofs.Grammar.Moved
import ClassLang.Proofs.Token.Append
import ClassLang.Proofs.Eval.Batch
import ClassLang.Proofs.Eval.Kept
import ClassLang.Proofs.Eval.Restored
import ClassLang.Proofs.Eval.Footprint
import ClassLang.Proofs.Eval.Moment
import ClassLang.Proofs.Writing.Outline
import ClassLang.Proofs.Writing.Expression
import ClassLang.Proofs.Writing.Statement
import ClassLang.Proofs.Writing.Program
import ClassLang.Proofs.Eval.Halting
import ClassLang.Proofs.Eval.Activation
import ClassLang.Proofs.Console
import ClassLang.Proofs.Eval.Isolated
import ClassLang.Proofs.Eval.Coherent
import ClassLang.Proofs.Eval.Mirror
import ClassLang.Proofs.Eval.Observed
import ClassLang.Proofs.Eval.Trimmed
import ClassLang.Proofs.Eval.Context
import ClassLang.Proofs.Eval.Unwinding
import ClassLang.Proofs.Grammar.Indented
import ClassLang.Proofs.Eval.Change
import ClassLang.Proofs.Eval.Extended
import ClassLang.Proofs.Tree.OnLines
import ClassLang.Proofs.Eval.Blame
import ClassLang.Proofs.Text.Lines
import ClassLang.Proofs.Excerpt
import ClassLang.Proofs.Eval.FailingLine
import ClassLang.Proofs.Refused
import ClassLang.Proofs.Token.Scanned
import ClassLang.Proofs.Entry
import ClassLang.Proofs.Text.Edits
import ClassLang.Proofs.Token.Bracketed
import ClassLang.Proofs.Token.Neutral
import ClassLang.Proofs.Eval.Entered
import ClassLang.Proofs.Eval.Beside
import ClassLang.Proofs.Eval.Operands
import ClassLang.Proofs.Eval.Connectives
import ClassLang.Proofs.Eval.Arithmetic
import ClassLang.Proofs.Text.Bytes
import ClassLang.Proofs.Eval.Dispatch
import ClassLang.Proofs.Eval.Order
import ClassLang.Proofs.Eval.Located
import ClassLang.Proofs.Eval.Rendered
import ClassLang.Proofs.Grammar.Written
import ClassLang.Proofs.Eval.Resolved
import ClassLang.Proofs.Token.Exact
import ClassLang.Proofs.Token.Alone
import ClassLang.Proofs.Token.Normal
import ClassLang.Proofs.Writing.Literal
import ClassLang.Proofs.Log.Filter
import ClassLang.Proofs.Text.Blank
import ClassLang.Proofs.Log.Setting
import ClassLang.Proofs.Log.Logger
import ClassLang.Proofs.Writing.Number
import ClassLang.Proofs.Log.Record
import ClassLang.Proofs.Token.Escapes
import ClassLang.Proofs.Eval.Hint
import ClassLang.Proofs.Grammar.Cursor
