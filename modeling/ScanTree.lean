import ScanTree.Config
import ScanTree.PropertyList.Json
import ScanTree.PropertyList.Parse
import ScanTree.PropertyList.Render
import ScanTree.Proofs.PropertyList.Nesting
import ScanTree.Proofs.PropertyList.RoundTrip
import ScanTree.Proofs.Coverage
import ScanTree.Proofs.PropertyList.Locations
import ScanTree.Proofs.PropertyList.Outcomes
import ScanTree.Proofs.FirstRule
import ScanTree.Proofs.Tree.Groups
import ScanTree.Proofs.Tree.Layout
import ScanTree.Proofs.Tree.Flattening
import ScanTree.Proofs.Pattern.Cutting
import ScanTree.Proofs.PropertyList.Choices
import ScanTree.Proofs.PropertyList.DeadEnds
import ScanTree.Proofs.PropertyList.Embedding
import ScanTree.Proofs.PropertyList.Truncation
import ScanTree.Proofs.PropertyList.Composition
import ScanTree.Proofs.PropertyList.Indifference
import ScanTree.Proofs.PropertyList.References
import ScanTree.Proofs.PropertyList.Reformatting
import ScanTree.Proofs.PropertyList.Spacing
import ScanTree.Proofs.PropertyList.LostKeys
import ScanTree.Proofs.PropertyList.Progress
import ScanTree.Proofs.GroupNumbers
import ScanTree.Proofs.PropertyList.Fillers
import ScanTree.Proofs.PropertyList.Insertion
import ScanTree.Proofs.PropertyList.IntegerLiterals
import ScanTree.Proofs.PropertyList.SingleQuotes
import ScanTree.Proofs.PropertyList.SingleLine
