import JvmSource.Attribute
import JvmSource.Bytes
import JvmSource.ClassFile
import JvmSource.Decimal.Layout
import JvmSource.Decimal.Shortest
import JvmSource.Error
import JvmSource.Eval.Action
import JvmSource.Eval.Effect
import JvmSource.Eval.Evaluate
import JvmSource.Eval.Frame
import JvmSource.Flow.Block
import JvmSource.Flow.Graph
import JvmSource.Flow.Label
import JvmSource.Flow.Loop
import JvmSource.Flow.Region
import JvmSource.Instruction
import JvmSource.Locals
import JvmSource.Member
import JvmSource.Method
import JvmSource.Name
import JvmSource.Opcode
import JvmSource.Operation
import JvmSource.Options
import JvmSource.Pool
import JvmSource.Proofs.ArrayType
import JvmSource.Proofs.Bytes
import JvmSource.Proofs.ClassText
import JvmSource.Proofs.Decoding
import JvmSource.Proofs.Descriptor
import JvmSource.Proofs.Encoding
import JvmSource.Proofs.Eval.Access
import JvmSource.Proofs.Eval.Arithmetic
import JvmSource.Proofs.Eval.Attempt
import JvmSource.Proofs.Eval.Balance
import JvmSource.Proofs.Eval.Branch
import JvmSource.Proofs.Eval.Construction
import JvmSource.Proofs.Eval.Discipline
import JvmSource.Proofs.Eval.Failure
import JvmSource.Proofs.Eval.Moment
import JvmSource.Proofs.Eval.Pending
import JvmSource.Proofs.Eval.Recovery
import JvmSource.Proofs.Eval.Retry
import JvmSource.Proofs.Eval.Shuffle
import JvmSource.Proofs.Eval.Step
import JvmSource.Proofs.Eval.Switch
import JvmSource.Proofs.Eval.Yield
import JvmSource.Proofs.Failure
import JvmSource.Proofs.Flow.Block
import JvmSource.Proofs.Flow.Bounds
import JvmSource.Proofs.Flow.Failure
import JvmSource.Proofs.Flow.Graph
import JvmSource.Proofs.Flow.Handler
import JvmSource.Proofs.Flow.Label
import JvmSource.Proofs.Flow.Loop
import JvmSource.Proofs.Flow.LoopSearch
import JvmSource.Proofs.Locals
import JvmSource.Proofs.MethodDescriptor
import JvmSource.Proofs.ObjectName
import JvmSource.Proofs.Operands
import JvmSource.Proofs.Parameters
import JvmSource.Proofs.PoolGrowth
import JvmSource.Proofs.Records
import JvmSource.Proofs.Result
import JvmSource.Proofs.Structure.Brackets
import JvmSource.Proofs.Structure.Control
import JvmSource.Proofs.Structure.Failure
import JvmSource.Proofs.Structure.Forward
import JvmSource.Proofs.Structure.Items
import JvmSource.Proofs.Structure.Jump
import JvmSource.Proofs.Structure.Nesting
import JvmSource.Proofs.Structure.Order
import JvmSource.Proofs.Structure.Outline
import JvmSource.Proofs.Structure.Rows
import JvmSource.Proofs.Structure.Scope
import JvmSource.Proofs.Structure.Visit
import JvmSource.Proofs.TableOrder
import JvmSource.Proofs.Text.Expression
import JvmSource.Proofs.Text.Quoted
import JvmSource.Proofs.Text.Replace
import JvmSource.Proofs.Text.Token
import JvmSource.Proofs.Underflow
import JvmSource.Proofs.VariableTable
import JvmSource.Reference
import JvmSource.Signature
import JvmSource.Structure.Body
import JvmSource.Structure.Order
import JvmSource.Structure.Scope
import JvmSource.Text.Escaped
import JvmSource.Text.Hidden
import JvmSource.Text.Lines
import JvmSource.Text.Number
import JvmSource.Text.Quoted
import JvmSource.Text.Replace
import JvmSource.Ty.Basic
import JvmSource.Ty.Descriptor
import JvmSource.Value
