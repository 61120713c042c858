import XbrlNetworks.Duration
import XbrlNetworks.Index

/-! # What can go wrong

Every refusal is a value that says what was wrong.  A `Flaw` is a rule of
construction that was broken, a `StoreFault` is what a store answers in place
of data, an `Obstacle` is what keeps a network from being a tree, and a
`Failure` is any of these or a failure of the work on networks itself.  The
wording stands in the functions `message`.
-/

namespace XbrlNetworks

/-- A rule of construction that is broken. -/
inductive Flaw where
  /-- A locator that names no fragment. -/
  | locatorWithoutTarget
  /-- A locator's target on a fragment of another kind. -/
  | strayTarget (kind : String)
  | unknownKind (kind : String)
  /-- A relationship whose arc has no arc role. -/
  | arcWithoutRole (arc : Index)
  /-- A relationship whose extended link has no link role. -/
  | linkWithoutRole (link : Index)
  /-- A relationship that starts or ends at a locator. -/
  | unresolvedEndpoint (endpoint : Index)
  | emptyLinkRole
  | emptyArcRole
  /-- A record of a relationship that is prohibited. -/
  | prohibitingRecord (arc : Index)
deriving DecidableEq, Repr

def Flaw.message : Flaw → String
  | locatorWithoutTarget => "locator fragment without a target"
  | strayTarget kind => s!"fragment kind '{kind}' cannot carry a locator target"
  | unknownKind kind => s!"unknown fragment kind '{kind}'"
  | arcWithoutRole arc => s!"arc {arc} has no arc role"
  | linkWithoutRole link => s!"extended link {link} has no link role"
  | unresolvedEndpoint endpoint => s!"relationship endpoint {endpoint} is an unresolved locator"
  | emptyLinkRole => "network link role is empty"
  | emptyArcRole => "network arc role is empty"
  | prohibitingRecord arc => s!"prohibiting arc {arc} cannot be persisted"

/-- The wording for a flaw where other failures could stand. -/
def Flaw.validationMessage (flaw : Flaw) : String :=
  s!"Validation error: {flaw.message}"

def invalidOrderMessage (arc : Index) (order : String) : String :=
  s!"Invalid arc {arc}: order '{order}' is not a decimal"

/-- What a store answers when it has no data to give. -/
inductive StoreFault where
  | connectionLost
  | priorityOutOfRange (priority : Int)
  /-- The ends of an arc that was never loaded were asked for. -/
  | unknownArc (arc : Index)
  | unknownUse (use : String)
  /-- A stored fragment breaks a rule of construction. -/
  | flawedFragment (flaw : Flaw)
  | invalidOrder (arc : Index) (order : String)
deriving DecidableEq, Repr

def StoreFault.message : StoreFault → String
  | connectionLost => "connection lost"
  | priorityOutOfRange priority => s!"Database error: Integer {priority} out of range at index 3"
  | unknownArc arc => s!"Not found: arc {arc}"
  | unknownUse use => s!"Invalid data: Unknown arc use: {use}"
  | flawedFragment flaw => flaw.validationMessage
  | invalidOrder arc order => invalidOrderMessage arc order

/-- What keeps a network from being a tree. -/
inductive Obstacle where
  | rootCount (count : Nat)
  /-- A fragment is entered by more than one relationship. -/
  | sharedChild (child : Index)
  /-- The network has not kept the fragment of its root. -/
  | unknownRoot (root : Index)
  /-- Fragments of relationships are out of reach of the root. -/
  | outOfReach (reached connected : Nat) (root : Index)
deriving DecidableEq, Repr

def Obstacle.message : Obstacle → String
  | rootCount count => s!"found {count} root fragments"
  | sharedChild child => s!"fragment {child} has more than one parent"
  | unknownRoot root => s!"root {root} is not cached"
  | outOfReach reached connected root =>
    s!"{reached} of {connected} fragments reachable from root {root}"

/-- Why work on networks did not succeed. -/
inductive Failure where
  /-- A rule of construction is broken. -/
  | validation (flaw : Flaw)
  /-- An arc's order is not a decimal number; the index is empty where no arc is known. -/
  | invalidOrder (arc : Index) (order : String)
  /-- A relationship from `source` to `target` was offered to the bucket of another. -/
  | incompatible (key : String) (source target : Index)
      (bucketKey : String) (bucketSource bucketTarget : Index)
  /-- A relationship was offered to the network of another base set. -/
  | mismatched (network relationship : BaseSet)
  /-- A network that is no tree was to be walked as one. -/
  | notATree (network : BaseSet) (obstacle : Obstacle)
  | storeAccess (fault : StoreFault)
  /-- A locator names a fragment that the store does not have. -/
  | danglingLocator (locator target : Index)
  /-- A locator names another locator. -/
  | locatorChain (locator target : Index)
  /-- A stored relationship names a fragment that the store does not have. -/
  | missingFragment (index : Index)
  | timedOut (limit : Duration)
  /-- A network could not be filled; the flag tells whether it was filled in part. -/
  | completion (network : BaseSet) (inPart : Bool) (cause : Failure)
deriving DecidableEq, Repr

def Failure.message : Failure → String
  | validation flaw => flaw.validationMessage
  | invalidOrder arc order => invalidOrderMessage arc order
  | incompatible key source target bucketKey bucketSource bucketTarget =>
    s!"Incompatible relationship: relationship {source} -> {target} with key '{key}'" ++
      s!" cannot join bucket {bucketSource} -> {bucketTarget} with key '{bucketKey}'"
  | mismatched network relationship =>
    s!"Relationship {relationship.text} does not belong in network {network.text}"
  | notATree network obstacle => s!"Network {network.text} is not a tree: {obstacle.message}"
  | storeAccess fault => s!"Store access error: {fault.message}"
  | danglingLocator locator target => s!"Locator {locator} points at missing fragment {target}"
  | locatorChain locator target =>
    s!"Locator {locator} resolves to another locator {target}; chained locators are not supported"
  | missingFragment index => s!"Fragment not found: {index}"
  | timedOut limit => s!"Timed out after {limit.text}"
  | completion network inPart cause =>
    let note := if inPart then " (network left partially populated)" else ""
    s!"Completing network {network.text} failed{note}: {cause.message}"

end XbrlNetworks
