import XbrlNetworks.Arc.Key
import XbrlNetworks.Json.Network
import XbrlNetworks.Network.Traversal
import XbrlNetworks.Proofs.Refinement
import XbrlNetworks.Proofs.RoundTrip
import XbrlNetworks.Proofs.Tree
import XbrlNetworks.Store
import XbrlNetworks.Proofs.Rounding
import XbrlNetworks.Proofs.Keys
import XbrlNetworks.Proofs.Freshness
import XbrlNetworks.Proofs.Offers
import XbrlNetworks.Proofs.Taking
import XbrlNetworks.Proofs.Fetched
import XbrlNetworks.Proofs.Roots
import XbrlNetworks.Proofs.Codec
import XbrlNetworks.Proofs.Snapshots
import XbrlNetworks.Proofs.Refilling
import XbrlNetworks.Proofs.Preorder
import XbrlNetworks.Proofs.Listing
import XbrlNetworks.Proofs.FirstFailure
import XbrlNetworks.Proofs.Resuming
import XbrlNetworks.Proofs.Settling
import XbrlNetworks.Proofs.Storable
import XbrlNetworks.Proofs.Modes
import XbrlNetworks.Proofs.Narrowing
import XbrlNetworks.Proofs.Standing
import XbrlNetworks.Proofs.Latest
import XbrlNetworks.Proofs.Shuffling
import XbrlNetworks.Proofs.Alike
import XbrlNetworks.Proofs.Reproduction
import XbrlNetworks.Proofs.Convergence
import XbrlNetworks.Proofs.Enlarging
import XbrlNetworks.Proofs.Increments
import XbrlNetworks.Proofs.Distribution
import XbrlNetworks.Proofs.Decoding
import XbrlNetworks.Proofs.Rejection
import XbrlNetworks.Proofs.Interruption
import XbrlNetworks.Proofs.Rehydration
import XbrlNetworks.Proofs.Spelling
import XbrlNetworks.Proofs.Flattening
import XbrlNetworks.Proofs.Duality
import XbrlNetworks.Proofs.Retaining
import XbrlNetworks.Proofs.Competition
import XbrlNetworks.Proofs.Leaves
import XbrlNetworks.Proofs.Searching
