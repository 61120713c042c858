import XbrlNetworks.Arc

/-! # Catalogues

A catalogue is all that the work on networks asks of loaded documents: it
answers seven questions about fragments, extended links and arcs.  A store
that answers may also cease to; an outage says which of its calls fail.  The
calls are also what time is told by: a clock says how much of it has passed
when so many calls have been made.
-/

namespace XbrlNetworks

/-- The questions that loaded documents answer. -/
structure Catalogue where
  fragment? : Index → Except StoreFault (Option Fragment)
  /-- The link roles of all extended links, each once -/
  linkRoles : Except StoreFault (List String)
  /-- The arc roles of all arcs, each once -/
  arcRoles : Except StoreFault (List String)
  links : String → Except StoreFault (List ExtendedLink)
  /-- The arcs in an extended link that have an arc role -/
  arcs : ExtendedLink → String → Except StoreFault (List Arc)
  /-- The fragments that an arc leads out of, locators not resolved -/
  arcSources : Arc → Except StoreFault (List Fragment)
  /-- The fragments that an arc leads into, locators not resolved -/
  arcTargets : Arc → Except StoreFault (List Fragment)

/-- Which calls to a store fail, by the number of calls made before. -/
abbrev Outage := Nat → Option StoreFault

namespace Outage

def never : Outage := fun _ => none

/-- A number of calls succeed and then the connection is lost for good. -/
def after (calls : Nat) : Outage := fun made =>
  if made < calls then none else some .connectionLost

def answer (outage : Outage) (made : Nat) (truth : Except StoreFault α) : Except StoreFault α :=
  match outage made with
  | some fault => .error fault
  | none => truth

/-- What is left of an outage after a number of calls. -/
def onwards (outage : Outage) (calls : Nat) : Outage := fun made =>
  outage (calls + made)

end Outage

/-- A catalogue behind a connection that may be lost. -/
structure Connection where
  catalogue : Catalogue
  outage : Outage

/-- How much time has passed since work began, by the number of calls made. -/
abbrev Clock := Nat → Duration

/-- A span of time and the clock that it is measured with. -/
structure Timer where
  limit : Duration
  clock : Clock

/-- How long filling networks may take; nothing for no limit, which is also
    what a limit comes to that the clock never reaches. -/
abbrev TimeLimit := Option Timer

namespace TimeLimit

def spent? : TimeLimit → (calls : Nat) → Option Duration
  | none, _ => none
  | some timer, calls => if timer.limit ≤ timer.clock calls then some timer.limit else none

/-- What is left of a limit, measured from now on.  There may be nothing left,
    but a limit that has been passed is refused. -/
def rest : TimeLimit → (calls : Nat) → Except Duration TimeLimit
  | none, _ => .ok none
  | some timer, calls =>
    if timer.limit < timer.clock calls then
      .error timer.limit
    else
      .ok (some ⟨timer.limit - timer.clock calls,
        fun later => timer.clock later - timer.clock calls⟩)

end TimeLimit

end XbrlNetworks
