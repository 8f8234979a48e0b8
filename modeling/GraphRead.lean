import GraphRead.Main
import GraphRead.Proofs.Catalog.Lookup
import GraphRead.Proofs.Filter.Aggregation
import GraphRead.Proofs.Filter.Depth
import GraphRead.Proofs.Filter.Faults
import GraphRead.Proofs.Filter.Grammar
import GraphRead.Proofs.Filter.Meaning
import GraphRead.Proofs.Read.Acceptance
import GraphRead.Proofs.Read.Containment
import GraphRead.Proofs.Read.Erasure
import GraphRead.Proofs.Read.Indentation
import GraphRead.Proofs.Read.MapKeys
import GraphRead.Proofs.Read.Names
import GraphRead.Proofs.Read.Omission
import GraphRead.Proofs.Read.ReadBack
import GraphRead.Proofs.Read.Wiring
import GraphRead.Proofs.Rendering.Acceptance
import GraphRead.Proofs.Rendering.Allocation
import GraphRead.Proofs.Rendering.Density
import GraphRead.Proofs.Rendering.FixedNames
import GraphRead.Proofs.Rendering.Frames
import GraphRead.Proofs.Rendering.Reading
import GraphRead.Proofs.Rendering.Renaming
import GraphRead.Proofs.Rendering.Search
import GraphRead.Proofs.Rendering.Silence
import GraphRead.Proofs.Text.Blocks
import GraphRead.Proofs.Text.Literals
