import CanvasExport.Main
import CanvasExport.Proofs.Configuration.RoundTrip
import CanvasExport.Proofs.Palette.Guards
import CanvasExport.Proofs.Palette.Indexed
import CanvasExport.Proofs.Palette.Layers
import CanvasExport.Proofs.Palette.Stage
import CanvasExport.Proofs.CommandLine.Exit
import CanvasExport.Proofs.Publish.Backup
import CanvasExport.Proofs.Publish.Construction
import CanvasExport.Proofs.Publish.FixedPoint
import CanvasExport.Proofs.Rule.Scan
import CanvasExport.Proofs.File.Sibling
import CanvasExport.Proofs.Publish.Policy
import CanvasExport.Proofs.Publish.Forcing
import CanvasExport.Proofs.Rule.Wiring
import CanvasExport.Proofs.Rule.Stems
