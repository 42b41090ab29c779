import CircuitDesigner.Circuit.Gesture
import CircuitDesigner.Drag
import CircuitDesigner.Execution.Response
import CircuitDesigner.Main
import CircuitDesigner.Shortcut
import CircuitDesigner.Proofs.Bundle.Closure
import CircuitDesigner.Proofs.Bundle.Import
import CircuitDesigner.Proofs.Json.Nesting
import CircuitDesigner.Proofs.Template.RoundTrip
import CircuitDesigner.Proofs.Bundle.Layout
import CircuitDesigner.Proofs.Editing.Cancel
import CircuitDesigner.Proofs.Editing.Collapse
import CircuitDesigner.Proofs.Editing.Attach
import CircuitDesigner.Proofs.Editing.Wires
import CircuitDesigner.Proofs.Workspace.Builder
import CircuitDesigner.Proofs.Restore.Renumbered
import CircuitDesigner.Proofs.Refresh.Faults
import CircuitDesigner.Proofs.Refresh.Occupied
import CircuitDesigner.Proofs.Editing.Placed
import CircuitDesigner.Proofs.Editing.Stack
import CircuitDesigner.Proofs.Refresh.Links
import CircuitDesigner.Proofs.History.Rollback
import CircuitDesigner.Proofs.Bundle.Growth
import CircuitDesigner.Proofs.Editing.Deletion
import CircuitDesigner.Proofs.Bundle.Culprit
import CircuitDesigner.Proofs.Bundle.Usable
import CircuitDesigner.Proofs.Catalog.Declaration
import CircuitDesigner.Proofs.Restore.Preserved
import CircuitDesigner.Proofs.Workspace.Opening
import CircuitDesigner.Proofs.Stamp.Codec
import CircuitDesigner.Proofs.Execution.Cache
import CircuitDesigner.Proofs.Editing.Ghost
import CircuitDesigner.Proofs.Exponent.Acceptance
import CircuitDesigner.Proofs.Refresh.Columnwise
import CircuitDesigner.Proofs.Editing.PlaceholderDrop
import CircuitDesigner.Proofs.Drawing
import CircuitDesigner.Proofs.CommandLine.Normalization
