import XbrlNetworks.Network.Completion

/-! # What filling does to a network

Filling a network asks a store many questions and may stop at any of them.
All that it ever does to the network itself is to add relationships, so what
insertion preserves is preserved by filling, however it ends.
-/

namespace XbrlNetworks

/-- A network after any number of accepted insertions. -/
inductive Network.Grows (network : Network) : Network → Prop where
  | refl : Grows network network
  | insert {next last : Network} {r : Relationship} {isNew : Bool} :
    Grows network next → next.insert r = .ok (last, isNew) → Grows network last

theorem Network.Grows.trans {first second third : Network} (h : first.Grows second)
    (h' : second.Grows third) : first.Grows third := by
  induction h' with
  | refl => exact h
  | insert _ inserted ih => exact .insert ih inserted

namespace Filling

variable {α β : Type}

def after : EStateM.Result Failure Progress α → Progress
  | .ok _ progress => progress
  | .error _ progress => progress

/-- Work that does no more to the network than to add relationships. -/
def OnlyAdds (work : Filling α) : Prop :=
  ∀ progress : Progress, progress.network.Grows (after (work progress)).network

theorem OnlyAdds.pure (answer : α) : OnlyAdds (Pure.pure answer) :=
  fun _ => .refl

theorem OnlyAdds.throw (failure : Failure) : OnlyAdds (throw failure : Filling α) :=
  fun _ => .refl

theorem OnlyAdds.bind {work : Filling α} {next : α → Filling β} (h : OnlyAdds work)
    (h' : ∀ answer, OnlyAdds (next answer)) : OnlyAdds (work >>= next) := by
  intro progress
  have first := h progress
  change progress.network.Grows (after (EStateM.bind work next progress)).network
  simp only [EStateM.bind]
  cases done : work progress with
  | error failure stopped =>
      rw [done] at first
      exact first
  | ok answer middle =>
      rw [done] at first
      exact first.trans (h' answer middle)

theorem OnlyAdds.mapM {work : α → Filling β} (h : ∀ item, OnlyAdds (work item))
    (items : List α) : OnlyAdds (items.mapM work) := by
  induction items with
  | nil => exact .pure []
  | cons item items ih =>
      rw [List.mapM_cons]
      exact .bind (h item) fun answer => .bind ih fun answers => .pure (answer :: answers)

theorem OnlyAdds.forM {work : α → Filling Unit} (h : ∀ item, OnlyAdds (work item))
    (items : List α) : OnlyAdds (items.forM work) := by
  induction items with
  | nil => exact .pure ()
  | cons item items ih => exact .bind (h item) fun _ => ih

theorem OnlyAdds.get {next : Progress → Filling α}
    (h : ∀ progress : Progress, progress.network.Grows (after (next progress progress)).network) :
    OnlyAdds (MonadState.get >>= next) :=
  h

theorem onlyAdds_ask (outage : Outage) (truth : Except StoreFault α) :
    OnlyAdds (ask outage truth) := by
  refine .get fun progress => ?_
  cases outage.answer progress.calls truth with
  | ok answer => exact .refl
  | error fault => exact .refl

theorem onlyAdds_checkTime (limit : TimeLimit) : OnlyAdds (checkTime limit) := by
  refine .get fun progress => ?_
  cases limit.spent? progress.calls with
  | some spent => exact .refl
  | none => exact .refl

theorem onlyAdds_lookUp (connection : Connection) (locator target : Index) :
    OnlyAdds (lookUp connection locator target) := by
  refine .get fun progress => ?_
  cases progress.network.fragments[target]? with
  | some kept => exact .refl
  | none =>
      refine OnlyAdds.bind (onlyAdds_ask _ _) (fun found => ?_) progress
      cases found with
      | some fragment => exact .pure fragment
      | none => exact .throw _

theorem onlyAdds_resolve (connection : Connection) (fragment : Fragment) :
    OnlyAdds (resolve connection fragment) := by
  unfold resolve
  cases fragment.kind.target? with
  | none => exact .pure fragment
  | some target =>
      refine .bind (onlyAdds_lookUp connection _ _) fun resolved => ?_
      split
      · exact .throw _
      · exact .pure resolved

theorem onlyAdds_addPair (link : ExtendedLink) (arc : Arc) (source target : Fragment) :
    OnlyAdds (addPair link arc source target) := by
  unfold addPair
  cases Relationship.bind arc source target link with
  | error flaw => exact .throw _
  | ok r =>
      refine .get fun progress => ?_
      cases inserted : progress.network.insert r with
      | error failure => exact .refl
      | ok next => exact .insert .refl inserted

theorem onlyAdds_addArc (connection : Connection) (limit : TimeLimit) (link : ExtendedLink)
    (arc : Arc) : OnlyAdds (addArc connection limit link arc) := by
  refine .bind (onlyAdds_checkTime limit) fun _ => ?_
  refine .bind (onlyAdds_ask _ _) fun sources => ?_
  refine .bind (.mapM (onlyAdds_resolve connection) sources) fun sources => ?_
  refine .bind (onlyAdds_ask _ _) fun targets => ?_
  refine .bind (.mapM (onlyAdds_resolve connection) targets) fun targets => ?_
  exact .forM (fun source => .forM (fun target => onlyAdds_addPair link arc source target) _) _

theorem onlyAdds_addLink (connection : Connection) (limit : TimeLimit) (arcRole : String)
    (link : ExtendedLink) : OnlyAdds (addLink connection limit arcRole link) := by
  refine .bind (onlyAdds_checkTime limit) fun _ => ?_
  refine .bind (onlyAdds_ask _ _) fun arcs => ?_
  exact .forM (onlyAdds_addArc connection limit link) arcs

theorem onlyAdds_addAll (connection : Connection) (limit : TimeLimit) (baseSet : BaseSet) :
    OnlyAdds (addAll connection limit baseSet) := by
  refine .bind (onlyAdds_ask _ _) fun links => ?_
  exact .forM (onlyAdds_addLink connection limit baseSet.arcRole) links

end Filling

/-- A filled network is the old one with relationships added, whether all went well or not. -/
theorem Network.fill_grows (network : Network) (connection : Connection) (limit : TimeLimit)
    (calls : Nat) : network.Grows (network.fill connection limit calls).network := by
  have grown := Filling.onlyAdds_addAll connection limit network.baseSet ⟨network, calls, 0⟩
  unfold fill
  cases done : Filling.addAll connection limit network.baseSet ⟨network, calls, 0⟩ with
  | ok _ progress =>
      rw [done] at grown
      exact grown
  | error cause progress =>
      rw [done] at grown
      exact grown

end XbrlNetworks
