import Treewright.Gate
import Treewright.Inspector
import Treewright.Main
import Treewright.Node.Sketch
import Treewright.Proofs.Documents
import Treewright.Proofs.Effects
import Treewright.Workbench
import Treewright.Proofs.Account
import Treewright.Proofs.Expressions
import Treewright.Proofs.Statements
import Treewright.Proofs.Format
import Treewright.Proofs.Programs
import Treewright.Proofs.Sessions
import Treewright.Proofs.Definitions
import Treewright.Proofs.Divergence
import Treewright.Proofs.Widening
import Treewright.Proofs.Frames
import Treewright.Proofs.Simulation
import Treewright.Proofs.ClosedScopes
import Treewright.Proofs.Confinement
import Treewright.Proofs.Regions
import Treewright.Proofs.Calls
import Treewright.Proofs.Parents
import Treewright.Proofs.Schedules
import Treewright.Proofs.Coercions
import Treewright.Proofs.Completion
import Treewright.Proofs.Numbering
import Treewright.Proofs.Inspections
import Treewright.Proofs.Nesting
import Treewright.Proofs.Grammar
import Treewright.Proofs.Layout
import Treewright.Proofs.Legibility
import Treewright.Proofs.Unambiguity
import Treewright.Proofs.Flaws
import Treewright.Proofs.Compilations
import Treewright.Proofs.Outputs
import Treewright.Proofs.Outcomes
import Treewright.Proofs.Mismatches
import Treewright.Proofs.Lines
import Treewright.Proofs.Skeletons
import Treewright.Proofs.Arguments
import Treewright.Proofs.Prototypes
import Treewright.Proofs.LineKeys
import Treewright.Proofs.Shifting
import Treewright.Proofs.Headers
import Treewright.Proofs.Blanks
import Treewright.Proofs.Preorder
import Treewright.Proofs.Cursor
import Treewright.Proofs.Contrasts
import Treewright.Proofs.Expectations
import Treewright.Proofs.Listings
