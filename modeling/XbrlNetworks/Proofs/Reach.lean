import Mathlib.Data.List.TakeWhile
import Mathlib.Logic.Relation
import XbrlNetworks.Network.Reach
import XbrlNetworks.Proofs.Answers

/-! # What the search for reach finds

The search lists, each once, exactly the fragments to which a chain of
effective relationships leads, on cycles and parallel relationships too.
-/

namespace XbrlNetworks.Network

open Std

/-- An effective relationship leads from the one fragment into the other. -/
def Leads (network : Network) (source target : Index) : Prop :=
  target ∈ network.children source

/-- A chain of effective relationships leads from the one fragment to the other. -/
def Reaches (network : Network) : Index → Index → Prop :=
  Relation.ReflTransGen network.Leads

variable {network : Network}

/-- What a search has found: fragments that were unseen, each once; those that were pending;
    their children; and nothing that is out of reach. -/
structure Explored (network : Network) (unseen pending found : List Index) : Prop where
  nodup : found.Nodup
  fresh : ∀ index ∈ found, index ∈ unseen
  started : ∀ index ∈ pending, index ∈ unseen → index ∈ found
  closed : ∀ index ∈ found, ∀ child ∈ network.children index, child ∈ unseen → child ∈ found
  reached : ∀ index ∈ found, ∃ start ∈ pending, network.Reaches start index

theorem Explored.nil {unseen pending : List Index} (h : ∀ index ∈ pending, index ∉ unseen) :
    network.Explored unseen pending [] where
  nodup := List.nodup_nil
  fresh := by simp
  started := fun index member unseen => absurd unseen (h index member)
  closed := by simp
  reached := by simp

theorem Explored.passed {unseen seen pending found : List Index}
    (h : network.Explored unseen pending found) (passed : ∀ index ∈ seen, index ∉ unseen) :
    network.Explored unseen (seen ++ pending) found := by
  refine ⟨h.nodup, h.fresh, ?_, h.closed, ?_⟩
  · intro index member new
    rcases List.mem_append.mp member with old | member
    · exact absurd new (passed index old)
    · exact h.started index member new
  · intro index member
    obtain ⟨start, pending, reaches⟩ := h.reached index member
    exact ⟨start, List.mem_append_right _ pending, reaches⟩

theorem Explored.cons {unseen rest found : List Index} {index : Index} (nodup : unseen.Nodup)
    (member : index ∈ unseen)
    (h : network.Explored (unseen.erase index) (network.children index ++ rest) found) :
    network.Explored unseen (index :: rest) (index :: found) := by
  -- Whatever is left of the unseen is either this one or still to be looked for.
  have here : ∀ other ∈ unseen, other ∉ unseen.erase index → other = index := by
    intro other inside outside
    by_contra different
    exact outside ((List.mem_erase_of_ne different).mpr inside)
  have started : ∀ other ∈ network.children index ++ rest, other ∈ unseen →
      other ∈ index :: found := by
    intro other pending inside
    by_cases left : other ∈ unseen.erase index
    · exact List.mem_cons_of_mem _ (h.started other pending left)
    · exact here other inside left ▸ List.mem_cons_self
  constructor
  · apply List.nodup_cons.mpr ⟨?_, h.nodup⟩
    intro again
    exact nodup.not_mem_erase (h.fresh index again)
  · intro other seen
    rcases List.mem_cons.mp seen with rfl | later
    · exact member
    · exact List.mem_of_mem_erase (h.fresh other later)
  · intro other pending inside
    rcases List.mem_cons.mp pending with rfl | later
    · exact List.mem_cons_self
    · exact started other (List.mem_append_right _ later) inside
  · intro other seen child isChild inside
    rcases List.mem_cons.mp seen with rfl | later
    · exact started child (List.mem_append_left _ isChild) inside
    · by_cases left : child ∈ unseen.erase index
      · exact List.mem_cons_of_mem _ (h.closed other later child isChild left)
      · exact here child inside left ▸ List.mem_cons_self
  · intro other seen
    rcases List.mem_cons.mp seen with rfl | later
    · exact ⟨other, List.mem_cons_self, .refl⟩
    · obtain ⟨start, pending, reaches⟩ := h.reached other later
      rcases List.mem_append.mp pending with isChild | pending
      · exact ⟨index, List.mem_cons_self, .head isChild reaches⟩
      · exact ⟨start, List.mem_cons_of_mem _ pending, reaches⟩

/-- The search is complete when it may see as many fragments as are unseen. -/
theorem explored_explore (count : Nat) (unseen pending : List Index) (nodup : unseen.Nodup)
    (enough : unseen.length ≤ count) :
    network.Explored unseen pending (network.explore count unseen pending) := by
  induction count generalizing unseen pending with
  | zero =>
      have nothing : unseen = [] := List.length_eq_zero_iff.mp (Nat.le_zero.mp enough)
      exact .nil (by simp [nothing])
  | succ count ih =>
      have split := List.takeWhile_append_dropWhile (p := fun index => !unseen.contains index)
        (l := pending)
      have passed : ∀ index ∈ pending.takeWhile fun index => !unseen.contains index,
          index ∉ unseen := by
        intro index member
        simpa using List.mem_takeWhile_imp member
      rw [explore]
      cases left : pending.dropWhile fun index => !unseen.contains index with
      | nil =>
          rw [left, List.append_nil] at split
          exact .nil (split ▸ passed)
      | cons index rest =>
          have member : index ∈ unseen := by
            have stopped := List.head?_dropWhile_not (fun index => !unseen.contains index) pending
            rw [left] at stopped
            simpa using stopped
          rw [left] at split
          rw [← split]
          refine Explored.passed (.cons nodup member (ih _ _ (nodup.erase index) ?_)) passed
          rw [List.length_erase_of_mem member]
          omega

section Log

variable {log : Log} {root index : Index}

theorem Follows.leads_iff (h : network.Follows log) {source target : Index} :
    network.Leads source target ↔
      ∃ r ∈ network.relationships, r.source.index = source ∧ r.target.index = target := by
  rw [Leads, children, List.mem_map]
  constructor
  · rintro ⟨r, member, same⟩
    obtain ⟨effective, atSource⟩ := h.mem_relationships_of_outgoing member
    exact ⟨r, effective, atSource, same⟩
  · rintro ⟨r, effective, rfl, same⟩
    exact ⟨r, (h.mem_ends effective).1, same⟩

theorem explored_reachableFrom (network : Network) (root : Index) :
    network.Explored (root :: network.targets.filter (· != root)) [root]
      (network.reachableFrom root) := by
  apply explored_explore
  · have targets : network.targets.Nodup := ExtTreeMap.nodup_keys
    simp [targets.filter]
  · exact Nat.le_refl _

theorem nodup_reachableFrom (network : Network) (root : Index) :
    (network.reachableFrom root).Nodup :=
  (network.explored_reachableFrom root).nodup

/-- The search finds a fragment just when a chain of effective relationships leads to it. -/
theorem Follows.mem_reachableFrom (h : network.Follows log) :
    index ∈ network.reachableFrom root ↔ network.Reaches root index := by
  have explored := network.explored_reachableFrom root
  constructor
  · intro member
    obtain ⟨start, pending, reaches⟩ := explored.reached index member
    exact List.mem_singleton.mp pending ▸ reaches
  · intro reaches
    induction reaches with
    | refl => exact explored.started root List.mem_cons_self List.mem_cons_self
    | @tail middle index _ leads ih =>
        apply explored.closed middle ih index leads
        obtain ⟨r, effective, _, rfl⟩ := h.leads_iff.mp leads
        by_cases atRoot : r.target.index = root
        · exact atRoot ▸ List.mem_cons_self
        · simp [atRoot, h.mem_targets effective]

theorem mem_connected : index ∈ network.connected ↔
    ∃ r ∈ network.relationships, r.source.index = index ∨ r.target.index = index := by
  simp [connected, eq_comm]

end Log

end XbrlNetworks.Network
