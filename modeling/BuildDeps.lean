import BuildDeps.BuildDir.CRuntime
import BuildDeps.Disk.Change
import BuildDeps.Fault
import BuildDeps.Include.Candidate
import BuildDeps.Include.Closure
import BuildDeps.Include.Derived
import BuildDeps.Include.Resolve
import BuildDeps.Main
import BuildDeps.Output.Files
import BuildDeps.Path.Join
import BuildDeps.Path.Relative
import BuildDeps.Path.Tidy
import BuildDeps.Proofs.Closure.Again
import BuildDeps.Proofs.Closure.ConfigHeader
import BuildDeps.Proofs.Closure.Preorder
import BuildDeps.Proofs.Generation.Independent
import BuildDeps.Proofs.Generation.Inside
import BuildDeps.Proofs.Graph.Calls
import BuildDeps.Proofs.Graph.Ends
import BuildDeps.Proofs.Graph.Faithful
import BuildDeps.Proofs.Graph.Handed
import BuildDeps.Proofs.Graph.Interference
import BuildDeps.Proofs.Graph.Missing
import BuildDeps.Proofs.Graph.Opened
import BuildDeps.Proofs.Graph.Provenance
import BuildDeps.Proofs.Graph.Runtime
import BuildDeps.Proofs.Graph.Tolerance
import BuildDeps.Proofs.Output.Atomic
import BuildDeps.Proofs.Output.Temporary
import BuildDeps.Proofs.Path.Joined
import BuildDeps.Proofs.Path.Shortest
import BuildDeps.Proofs.Products.Cleaned
import BuildDeps.Proofs.Source.Behind
import BuildDeps.Proofs.Source.FirstOpened
import BuildDeps.Proofs.Source.Written
import BuildDeps.Proofs.Step.FirstMatch
import BuildDeps.Proofs.Step.Rebuild
import BuildDeps.Proofs.Text.Groups
import BuildDeps.Proofs.Variables.Described
import BuildDeps.Proofs.Variables.Escaped
import BuildDeps.Proofs.Variables.Recursive
import BuildDeps.Settings
import BuildDeps.Source.Catalogue
import BuildDeps.Table
import BuildDeps.Text.Alphanumeric
import BuildDeps.Text.Blank
import BuildDeps.Text.DecimalDigit
import BuildDeps.Text.Line
import BuildDeps.Text.Quoted
import BuildDeps.Text.Utf8
import BuildDeps.Variables.Descriptor
import BuildDeps.Variables.Makeflags
