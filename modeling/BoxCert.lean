import BoxCert.Number.Power
import BoxCert.Number.Binary64
import BoxCert.Number.Nearest
import BoxCert.Number.Directed
import BoxCert.Number.Shortest
import BoxCert.Number.Layout
import BoxCert.Number.Numeral
import BoxCert.Text.Concealed
import BoxCert.Text.Blank
import BoxCert.Text.Quoted
import BoxCert.Property.Form
import BoxCert.Grid
import BoxCert.Interval.Basic
import BoxCert.Fault
import BoxCert.Interval.Matrix
import BoxCert.Box
import BoxCert.Layer
import BoxCert.Decision.Outcome
import BoxCert.Decision.Disjunction
import BoxCert.Decision.Check
import BoxCert.Property.Basic
import BoxCert.Settings
import BoxCert.Certification
import BoxCert.Property.Reading
import BoxCert.Json.Number
import BoxCert.Json.Value
import BoxCert.Json.Token
import BoxCert.Json.Reading
import BoxCert.Json.Writing
import BoxCert.Json.Shape
import BoxCert.Exchange.Vocabulary
import BoxCert.Model.Rows
import BoxCert.Exchange.Records
import BoxCert.Number.Words
import BoxCert.Protobuf.Wire
import BoxCert.Protobuf.Message
import BoxCert.Onnx.Graph
import BoxCert.Onnx.Affine
import BoxCert.Gzip.Bits
import BoxCert.Gzip.PrefixCode
import BoxCert.Gzip.Inflate
import BoxCert.Gzip.Checksum
import BoxCert.Gzip.Member
import BoxCert.Files.Path
import BoxCert.Files.Store
import BoxCert.Model.Loading
import BoxCert.Command.Budget
import BoxCert.Command.Arguments
import BoxCert.Command.Output
import BoxCert.Command.Run
import BoxCert.Main
import BoxCert.Proofs.Number.Representable
import BoxCert.Proofs.Number.ErrorFree
import BoxCert.Proofs.Number.Rank
import BoxCert.Proofs.Number.Value
import BoxCert.Proofs.Number.Place
import BoxCert.Proofs.Number.Mirror
import BoxCert.Proofs.Number.Rounded
import BoxCert.Proofs.Number.Outward
import BoxCert.Proofs.Number.DirectedSum
import BoxCert.Proofs.Number.SumSign
import BoxCert.Proofs.Number.DirectedProduct
import BoxCert.Proofs.Grid
import BoxCert.Proofs.Interval.Enclosure
import BoxCert.Proofs.Interval.Linear
import BoxCert.Proofs.Interval.Matrix
import BoxCert.Proofs.Propagation
import BoxCert.Proofs.Decision.Check
import BoxCert.Proofs.Decision.Verdict
import BoxCert.Proofs.Certification
import BoxCert.Proofs.Certificates
import BoxCert.Proofs.Modes
import BoxCert.Proofs.Decision.Leads
import BoxCert.Proofs.Refusal
import BoxCert.Proofs.Number.Monotone
import BoxCert.Proofs.Number.Spill
import BoxCert.Proofs.Interval.Monotone
import BoxCert.Proofs.Widening
import BoxCert.Proofs.Property.Nesting
import BoxCert.Proofs.Property.Comparisons
import BoxCert.Proofs.Property.Statements
import BoxCert.Proofs.Property.Corners
import BoxCert.Proofs.Property.Spacing
import BoxCert.Proofs.Interval.Kernel
import BoxCert.Proofs.Decision.Points
import BoxCert.Proofs.Onnx.Forms
import BoxCert.Proofs.Ranges
import BoxCert.Proofs.Refinement
import BoxCert.Proofs.Findings
import BoxCert.Proofs.Number.Sharp
import BoxCert.Proofs.Decision.Agreement
import BoxCert.Proofs.Onnx.Operands
import BoxCert.Proofs.Files.Compression
import BoxCert.Proofs.Building
import BoxCert.Proofs.Onnx.Parameters
import BoxCert.Proofs.Mismatch
import BoxCert.Proofs.Json.Spelling
import BoxCert.Proofs.Json.Layout
import BoxCert.Proofs.Number.Decimals
import BoxCert.Proofs.Json.Numbers
import BoxCert.Proofs.Json.Floats
import BoxCert.Proofs.Json.Shape
import BoxCert.Proofs.Command.Budget
import BoxCert.Proofs.Command.Endings
import BoxCert.Proofs.Exchange.Reports
import BoxCert.Proofs.Files.Label
import BoxCert.Proofs.Rows
import BoxCert.Proofs.Decision.Pairs
import BoxCert.Proofs.Number.Integer
import BoxCert.Proofs.Interval.Integer
import BoxCert.Proofs.Tightness
import BoxCert.Proofs.Property.Labels
import BoxCert.Proofs.Property.Alike
import BoxCert.Proofs.Property.Clauses
import BoxCert.Proofs.Property.Rewriting
import BoxCert.Proofs.Model.Rows
import BoxCert.Proofs.Interval.Product
import BoxCert.Proofs.Number.TiesToEven
import BoxCert.Proofs.Interval.Mirror
import BoxCert.Proofs.Interval.SignSplit
import BoxCert.Proofs.InputBox
import BoxCert.Proofs.Number.Words
import BoxCert.Proofs.Number.Interchange
import BoxCert.Proofs.Onnx.Elements
