import Mathlib.Data.List.Pairwise
import XbrlNetworks.Proofs.Alike

/-! # The order of insertions

Relationships that do not collide leave the same buckets in whatever order they
come, and however often.  Slots are opened in another order then, but nothing
that a network answers depends on these.
-/

namespace XbrlNetworks

open Std

/-- Relationships of one bucket that cannot both keep their places: they have the same priority
    or come from the same arc. -/
def Relationship.Collides (r r' : Relationship) : Prop :=
  r.identity = r'.identity ∧ (r.arc.priority = r'.arc.priority ∨ r.arc.index = r'.arc.index)

instance (r r' : Relationship) : Decidable (r.Collides r') :=
  inferInstanceAs (Decidable (_ ∧ _))

theorem Relationship.Collides.symm {r r' : Relationship} (h : r.Collides r') : r'.Collides r :=
  ⟨h.1.symm, h.2.imp Eq.symm Eq.symm⟩

def Log.CollisionFree (log : Log) : Prop :=
  ∀ r ∈ log, ∀ r' ∈ log, r.Collides r' → r = r'

namespace Bucket

variable {r r' : Relationship} {log log' : Log} {identity : Identity}

theorem join_comm (bucket : Bucket) (same : r.identity = r'.identity)
    (apart : r.arc.priority ≠ r'.arc.priority) :
    (bucket.join r).join r' = (bucket.join r').join r := by
  have arcs : (bucket.arcs.insert r.arc.index).insert r'.arc.index =
      (bucket.arcs.insert r'.arc.index).insert r.arc.index := by
    refine ExtTreeSet.ext_mem fun arc => ?_
    simp only [ExtTreeSet.mem_insert]
    exact or_left_comm
  simp only [join, same, insert_comm _ apart, arcs]

/-- A bucket depends on the order of its log no more than on that of its priorities. -/
theorem ofLog_eq_of_perm (perm : log.Perm log') (own : ∀ r ∈ log, r.identity = identity)
    (free : log.CollisionFree) : ofLog log = ofLog log' := by
  apply perm.foldl_eq'
  intro r member r' member' bucket
  have same : r.identity = r'.identity := (own r member).trans (own r' member').symm
  by_cases apart : r.arc.priority = r'.arc.priority
  · rw [free r member r' member' ⟨same, .inl apart⟩]
  · exact join_comm bucket same apart

end Bucket

namespace Log

variable {log log' : Log} {r : Relationship} {identity : Bucket.Identity}

theorem collisionFree_of_pairwise (h : log.Pairwise fun r r' => ¬ r.Collides r') :
    log.CollisionFree := by
  have symmetric : Std.Symm fun r r' : Relationship => ¬ r.Collides r' :=
    ⟨fun _ _ apart collides => apart collides.symm⟩
  intro r member r' member' collides
  by_contra different
  exact h.forall member member' different collides

theorem CollisionFree.of_mem_iff (h : log.CollisionFree) (same : ∀ r, r ∈ log ↔ r ∈ log') :
    log'.CollisionFree := by
  intro r member r' member'
  exact h r ((same r).mpr member) r' ((same r').mpr member')

theorem nodup_competitors (log : Log) (identity : Bucket.Identity) :
    (log.competitors identity).Nodup := by
  rw [competitors]
  generalize log.filter (fun r => decide (r.identity = identity)) = here
  induction here with
  | nil => exact List.nodup_nil
  | cons r rest ih =>
      refine List.nodup_cons.mpr ⟨?_, ih.filter _⟩
      intro again
      simpa using (List.mem_filter.mp again).2

theorem CollisionFree.mem_competitors (h : log.CollisionFree) :
    r ∈ log.competitors identity ↔ r ∈ log ∧ r.identity = identity := by
  refine ⟨mem_of_mem_competitors, ?_⟩
  rintro ⟨member, rfl⟩
  obtain ⟨other, competes, sameArc⟩ := exists_mem_competitors.mpr ⟨r, member, rfl, rfl⟩
  obtain ⟨otherMember, same⟩ := mem_of_mem_competitors competes
  exact h other otherMember r member ⟨same, .inr sameArc⟩ ▸ competes

end Log

namespace Network

variable {network other : Network} {log log' : Log} {identity : Bucket.Identity}

theorem Follows.bucketAt?_eq_of_mem_iff (h : network.Follows log) (h' : other.Follows log')
    (free : log.CollisionFree) (same : ∀ r, r ∈ log ↔ r ∈ log') (identity : Bucket.Identity) :
    network.bucketAt? identity = other.bucketAt? identity := by
  have members : ∀ r, r ∈ log.competitors identity ↔ r ∈ log'.competitors identity := by
    intro r
    rw [free.mem_competitors, (free.of_mem_iff same).mem_competitors, same]
  have perm : (log.competitors identity).Perm (log'.competitors identity) :=
    (List.perm_ext_iff_of_nodup (log.nodup_competitors _) (log'.nodup_competitors _)).mpr members
  have buckets : Bucket.ofLog (log.competitors identity) = .ofLog (log'.competitors identity) := by
    apply Bucket.ofLog_eq_of_perm perm
    · exact fun r competes => (Log.mem_of_mem_competitors competes).2
    · intro r competes r' competes'
      have member := (Log.mem_of_mem_competitors competes).1
      exact free r member r' (Log.mem_of_mem_competitors competes').1
  have nothing : log.competitors identity = [] ↔ log'.competitors identity = [] := by
    rw [← List.length_eq_zero_iff, perm.length_eq, List.length_eq_zero_iff]
  rw [h.view, h'.view, buckets]
  exact if_congr nothing rfl rfl

/-- Networks with the same relationships answer alike if none of these collide. -/
theorem Follows.alike_of_mem_iff (h : network.Follows log) (h' : other.Follows log')
    (base : network.baseSet = other.baseSet) (free : log.CollisionFree)
    (same : ∀ r, r ∈ log ↔ r ∈ log') : network.Alike other :=
  h.coherent.alike h'.coherent base fun identity =>
    congrArg _ (h.bucketAt?_eq_of_mem_iff h' free same identity)

/-- Relationships that do not collide can be added in any order: the answers are the same, and so
    is the bucket of every identity. -/
theorem alike_insertAll_of_perm {baseSet : BaseSet} {relationships shuffled : Log}
    (opened : Network.new baseSet = .ok network)
    (own : ∀ r ∈ relationships, r.baseSet = baseSet)
    (apart : relationships.Pairwise fun r r' => ¬ r.Collides r')
    (perm : relationships.Perm shuffled) :
    ∃ last last', network.insertAll relationships = .ok last ∧
      network.insertAll shuffled = .ok last' ∧ last.Alike last' ∧
      ∀ identity, last.bucketAt? identity = last'.bucketAt? identity := by
  obtain ⟨follows, rfl⟩ := follows_new opened
  have free := Log.collisionFree_of_pairwise apart
  have same : ∀ r, r ∈ relationships ↔ r ∈ shuffled := fun _ => perm.mem_iff
  obtain ⟨last, run, base, follows'⟩ := follows.insertAll own
  obtain ⟨last', run', base', follows''⟩ := follows.insertAll fun r member =>
    own r ((same r).mpr member)
  have alike := follows'.alike_of_mem_iff follows'' (base.trans base'.symm) free same
  exact ⟨last, last', run, run', alike, follows'.bucketAt?_eq_of_mem_iff follows'' free same⟩

/-- A prohibition takes effect whether it comes before or after what it prohibits. -/
theorem alike_insertAll_of_prohibition : ∃ network last last' : Network,
    ∃ asserted prohibited other : Relationship,
      Network.new ⟨"A", "L"⟩ = .ok network ∧
      network.insertAll [asserted, prohibited, other] = .ok last ∧
      network.insertAll [prohibited, other, asserted] = .ok last' ∧ last.Alike last' ∧
      last.relationships = [other] ∧
      asserted.identity = prohibited.identity ∧ prohibited.isProhibited = true := by
  let asserted := Relationship.sample "x" "s" "t" .optional
  let other := Relationship.sample "z" "s" "a" .optional
  let prohibited : Relationship := { Relationship.sample "y" "s" "t" .prohibited with
    arc := { Arc.plain "y" "A" "A|order=1" with use := .prohibited, priority := 1 }
    hasArcRole := by simp [Arc.plain] }
  have opened : Network.new ⟨"A", "L"⟩ = .ok (openFor asserted) := rfl
  have own : ∀ r ∈ [asserted, prohibited, other], r.baseSet = ⟨"A", "L"⟩ := by decide
  have apart : [asserted, prohibited, other].Pairwise fun r r' => ¬ r.Collides r' := by
    decide +kernel
  have perm : [asserted, prohibited, other].Perm [prohibited, other, asserted] :=
    (List.perm_append_comm : ([asserted] ++ [prohibited, other]).Perm _)
  obtain ⟨last, last', run, run', alike, _⟩ := alike_insertAll_of_perm opened own apart perm
  have effective : ((openFor asserted).insertAll [asserted, prohibited, other]).map
      Network.relationships = .ok [other] := by
    decide +kernel
  rw [run] at effective
  exact ⟨_, last, last', asserted, prohibited, other, opened, run, run', alike,
    Except.ok.inj effective, by decide +kernel, by decide +kernel⟩

end Network

end XbrlNetworks
