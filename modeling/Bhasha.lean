import Bhasha.Main
import Bhasha.Tree.Outline
import Bhasha.Proofs.Heap.Frames
import Bhasha.Proofs.Heap.Integrity
import Bhasha.Proofs.Heap.Search
import Bhasha.Proofs.Machine.Safety
import Bhasha.Proofs.Machine.Sessions
import Bhasha.Proofs.Machine.Renaming
import Bhasha.Proofs.Machine.Matching
import Bhasha.Proofs.Machine.Simulation
import Bhasha.Proofs.Machine.Depth
import Bhasha.Proofs.Machine.Release
import Bhasha.Proofs.Tree.Grammar
import Bhasha.Proofs.Tree.Reading
import Bhasha.Proofs.Tree.Soundness
import Bhasha.Proofs.Tree.Completeness
import Bhasha.Proofs.Token.Scanning
import Bhasha.Proofs.Tree.Recognition
import Bhasha.Proofs.Token.Spelling
import Bhasha.Proofs.Tree.Faithful
import Bhasha.Proofs.Tree.Erasure
import Bhasha.Proofs.Tree.RoundTrip
import Bhasha.Proofs.Machine.Collection
import Bhasha.Proofs.Machine.Visits
import Bhasha.Proofs.Machine.Retention
import Bhasha.Proofs.Machine.Closures
import Bhasha.Proofs.Machine.Relabelling
import Bhasha.Proofs.Machine.Commutation
import Bhasha.Proofs.Machine.Parameters
import Bhasha.Proofs.Token.Respelling
import Bhasha.Proofs.Tree.Respelling
import Bhasha.Proofs.Machine.Layout
import Bhasha.Proofs.Heap.History
import Bhasha.Proofs.Heap.Generations
import Bhasha.Proofs.Heap.Ancestry
import Bhasha.Proofs.Heap.Exactness
import Bhasha.Proofs.Machine.Course
import Bhasha.Proofs.Machine.Writes
import Bhasha.Proofs.Machine.Faults
import Bhasha.Proofs.Machine.Boundaries
import Bhasha.Proofs.Heap.Shadowing
import Bhasha.Proofs.Machine.Returns
import Bhasha.Proofs.Token.Rules
import Bhasha.Proofs.Token.Tiling
import Bhasha.Proofs.Token.WritingOut
import Bhasha.Proofs.Tree.Termination
import Bhasha.Proofs.Tree.FaultOrder
import Bhasha.Proofs.Tree.Provenance
import Bhasha.Proofs.Machine.Calculation
import Bhasha.Proofs.Machine.Lists
import Bhasha.Proofs.Token.Appending
import Bhasha.Proofs.Tree.Lines
import Bhasha.Proofs.Tree.Appending
import Bhasha.Proofs.Heap.Marks
import Bhasha.Proofs.Machine.Checks
import Bhasha.Proofs.Tree.Contexts
import Bhasha.Proofs.Machine.Bindings
import Bhasha.Proofs.Machine.Objects
import Bhasha.Proofs.Machine.Equality
