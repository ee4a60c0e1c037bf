import Cellular.Command.Flags
import Cellular.Command.Host
import Cellular.Command.Inspect
import Cellular.Command.Invocation
import Cellular.Command.Report
import Cellular.Command.Run
import Cellular.Command.Value
import Cellular.Compile
import Cellular.Config.Basic
import Cellular.Config.Decode
import Cellular.Config.Decoding
import Cellular.Config.Encode
import Cellular.Config.Resolve
import Cellular.Config.Ruleset
import Cellular.Error
import Cellular.Grid
import Cellular.Image
import Cellular.Image.Graymap
import Cellular.Image.Png
import Cellular.Kernel
import Cellular.Layout.Basic
import Cellular.Layout.Record
import Cellular.Location
import Cellular.Machine.Board
import Cellular.Machine.Frame
import Cellular.Machine.Value
import Cellular.Main
import Cellular.Number.Binary
import Cellular.Number.Decimal
import Cellular.Number.Numeral
import Cellular.Position
import Cellular.Rule.Chain
import Cellular.Rule.Expr
import Cellular.Rule.Operator
import Cellular.Rule.Scope
import Cellular.Rule.Ty
import Cellular.Rule.Typing
import Cellular.Shader.Code
import Cellular.Shader.Generate
import Cellular.Shader.Printer
import Cellular.Source.Grammar
import Cellular.Source.Lexer
import Cellular.Source.Reader
import Cellular.Source.Recogniser
import Cellular.Source.Token
import Cellular.Text.Base64
import Cellular.Text.Printable
import Cellular.Text.Quoted
import Cellular.Text.Table
import Cellular.Yaml.Meaning
import Cellular.Yaml.Node
import Cellular.Yaml.Point
import Cellular.Yaml.Printer
import Cellular.Yaml.Property
import Cellular.Yaml.Scalar
import Cellular.Yaml.Scanner
import Cellular.Yaml.Style
import Cellular.Yaml.Token
import Cellular.Proofs.Layout.Packing
import Cellular.Proofs.Shader.Semantics
import Cellular.Proofs.Layout.Bits
import Cellular.Proofs.Shader.Accessors
import Cellular.Proofs.Source.Derivation
import Cellular.Proofs.Source.Spelling
import Cellular.Proofs.Machine.Soundness
import Cellular.Proofs.Compile
import Cellular.Proofs.Machine.Run
import Cellular.Proofs.Shader.Environment
import Cellular.Proofs.Shader.Simulation
import Cellular.Proofs.Layout.Lenses
import Cellular.Proofs.Rule.Scoping
import Cellular.Proofs.Rule.Climbing
import Cellular.Proofs.Source.Words
import Cellular.Proofs.Source.Lookahead
import Cellular.Proofs.Source.Shape
import Cellular.Proofs.Source.Prediction
import Cellular.Proofs.Source.Literals
import Cellular.Proofs.Source.Settling
import Cellular.Proofs.Source.Writing
import Cellular.Proofs.Source.Parsing
import Cellular.Proofs.Source.Printing
import Cellular.Proofs.Source.Statements
import Cellular.Proofs.Machine.Locality
import Cellular.Proofs.Machine.Translation
import Cellular.Proofs.Machine.Erasure
import Cellular.Proofs.Ruleset.Reading
import Cellular.Proofs.Ruleset.Program
import Cellular.Proofs.Ruleset.Compilation
import Cellular.Proofs.Ruleset.Life
import Cellular.Proofs.Shader.Names
import Cellular.Proofs.Shader.Static
import Cellular.Proofs.Shader.Typing
import Cellular.Proofs.Shader.Checking
import Cellular.Proofs.Shader.Definitions
import Cellular.Proofs.Shader.Assembly
import Cellular.Proofs.Shader.Vocabulary
import Cellular.Proofs.Shader.Text
import Cellular.Proofs.Reordering.Layouts
import Cellular.Proofs.Reordering.Rules
import Cellular.Proofs.Reordering.Kernels
import Cellular.Proofs.Reordering.Machines
import Cellular.Proofs.Reordering.Configs
import Cellular.Proofs.Config.Keys
import Cellular.Proofs.Shader.Fetching
import Cellular.Proofs.Shader.Silence
import Cellular.Proofs.Shader.Counting
import Cellular.Proofs.Yaml.Scalars
import Cellular.Proofs.Yaml.Scanning
import Cellular.Proofs.Yaml.Tokens
import Cellular.Proofs.Yaml.Outlines
import Cellular.Proofs.Yaml.Documents
import Cellular.Proofs.Config.Reading
import Cellular.Proofs.Config.Documents
import Cellular.Proofs.Ruleset.Document
import Cellular.Proofs.Source.Nesting
import Cellular.Proofs.Weights
import Cellular.Proofs.Machine.Keeping
import Cellular.Proofs.Shader.Translating
import Cellular.Proofs.Machine.Interior
import Cellular.Proofs.Rule.Acceptance
import Cellular.Proofs.Machine.Updates
import Cellular.Proofs.Source.Tiling
import Cellular.Proofs.Source.Spacing
import Cellular.Proofs.Source.Diagnostics
import Cellular.Proofs.Source.Faults
import Cellular.Proofs.Source.Anchors
import Cellular.Proofs.Machine.Coordinates
