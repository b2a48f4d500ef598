import LayerLint.Json.Reader
import LayerLint.Main
import LayerLint.Proofs.Check.Together
import LayerLint.Proofs.Glob.Selection
import LayerLint.Proofs.Scan.Selected
import LayerLint.Proofs.Scan.Agenda
import LayerLint.Proofs.Scan.Aliases
import LayerLint.Proofs.Scan.Reachable
import LayerLint.Proofs.Check.Contained
import LayerLint.Proofs.Check.Failing
import LayerLint.Proofs.Settings.Loading
import LayerLint.Proofs.Command.Exit
import LayerLint.Proofs.Check.Locality
import LayerLint.Proofs.Check.Relocation
import LayerLint.Proofs.Rule.DottedImports
import LayerLint.Proofs.Settings.Precedence
import LayerLint.Proofs.Glob.Denotation
import LayerLint.Proofs.Json.RoundTrip
import LayerLint.Proofs.Report.Written
import LayerLint.Proofs.Check.Stopping
import LayerLint.Proofs.Report.Views
import LayerLint.Proofs.Import.Rendering
import LayerLint.Proofs.Glob.Slashes
import LayerLint.Proofs.Check.Fetches
import LayerLint.Proofs.Import.Files
import LayerLint.Proofs.Glob.Folders
import LayerLint.Proofs.Rule.Recognition
import LayerLint.Proofs.Scan.Pruning
import LayerLint.Proofs.Import.Semicolons
import LayerLint.Proofs.Style.Registration
import LayerLint.Proofs.Report.Displayed
import LayerLint.Proofs.FileTree.Growth
import LayerLint.Proofs.Journal.LogFiles
import LayerLint.Proofs.Glob.Settled
