import BlockVerilog.Main
import BlockVerilog.Command.World
import BlockVerilog.Handlers.Template
import BlockVerilog.Proofs.Graph.Marks
import BlockVerilog.Proofs.Pass.Coverage
import BlockVerilog.Proofs.Pass.Termination
import BlockVerilog.Proofs.Reading.Generation
import BlockVerilog.Proofs.Names.History
import BlockVerilog.Proofs.Pass.History
import BlockVerilog.Proofs.Text.CodeLines
import BlockVerilog.Proofs.Text.Layout
import BlockVerilog.Proofs.Text.Wrapping
import BlockVerilog.Proofs.Graph.CommentWidth
import BlockVerilog.Proofs.Text.Tidying
import BlockVerilog.Proofs.Graph.Uncommented
import BlockVerilog.Proofs.Handlers.Layout
import BlockVerilog.Proofs.Pass.Layout
import BlockVerilog.Proofs.Words.Tree
import BlockVerilog.Proofs.Words.Generation
import BlockVerilog.Proofs.Pass.Disabled
import BlockVerilog.Proofs.Document.Rearranged
import BlockVerilog.Proofs.Graph.DefaultRoots
import BlockVerilog.Proofs.Graph.Diagnosis
import BlockVerilog.Proofs.Document.Keys
import BlockVerilog.Proofs.Command.Agreement
import BlockVerilog.Proofs.Pass.Roots
import BlockVerilog.Proofs.Pass.Freshness
import BlockVerilog.Proofs.Pass.Naming
import BlockVerilog.Proofs.Command.Delivery
import BlockVerilog.Proofs.Document.Written
import BlockVerilog.Proofs.Handlers.Walk
import BlockVerilog.Proofs.Pass.Conditional
import BlockVerilog.Proofs.Reading.Standard
import BlockVerilog.Proofs.Reading.Width
import BlockVerilog.Proofs.Number.SizedLiteral
import BlockVerilog.Proofs.Number.LongNumeral
import BlockVerilog.Proofs.Pass.Constant
import BlockVerilog.Proofs.Pass.Timescale
import BlockVerilog.Proofs.Pass.Display
import BlockVerilog.Proofs.Pass.Declared
import BlockVerilog.Proofs.Names.Search
import BlockVerilog.Proofs.Names.Encoding
import BlockVerilog.Proofs.Graph.Harvest
import BlockVerilog.Proofs.Pass.Nested
