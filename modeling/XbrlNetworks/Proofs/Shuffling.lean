import Mathlib.Data.List.Pairwise
import XbrlNetworks.Proofs.Latest
import XbrlNetworks.Proofs.Storing

/-! # The order of loading does not matter

Two entries are rivals if the one replaces the other when both are loaded.  Entries
that are no rivals can be loaded in either order, so that any number of them can be
shuffled and divided among loads at will.  Neither what is stored nor how a network
is filled depends on it.
-/

namespace XbrlNetworks

open Std

namespace DocumentEntry

/-- The entries are of one kind, other than labels, and have the same index. -/
def Rivals : DocumentEntry → DocumentEntry → Prop
  | .fragment loaded, .fragment other => loaded.index = other.index
  | .link loaded, .link other => loaded.index = other.index
  | .arc _ _ _ loaded, .arc _ _ _ other => loaded.index = other.index
  | _, _ => False

theorem Rivals.symm {entry other : DocumentEntry} (h : entry.Rivals other) :
    other.Rivals entry := by
  cases entry <;> cases other
  case fragment.fragment => exact Eq.symm h
  case link.link => exact Eq.symm h
  case arc.arc => exact Eq.symm h
  all_goals exact h

instance : Symm fun entry other : DocumentEntry => ¬ entry.Rivals other where
  symm _ _ apart rivals := apart rivals.symm

end DocumentEntry

namespace Documents

variable {entry other : DocumentEntry} {entries shuffled : List DocumentEntry}

theorem put_put_comm (documents : Documents) (apart : ¬ entry.Rivals other) :
    (documents.put entry).put other = (documents.put other).put entry := by
  cases entry <;> cases other
  case fragment.fragment =>
    simp only [put, putFragment, insert_comm documents.fragments apart]
  case link.link => simp only [put, insert_comm documents.links apart]
  case arc.arc => simp only [put, putArc, insert_comm documents.arcs apart]
  case member.member =>
    -- Labels only accumulate, so these two may even be the same.
    simp only [put, Documents.mk.injEq, true_and, and_true]
    refine ExtTreeSet.ext_mem fun asked => ?_
    simp only [ExtTreeSet.mem_insert]
    exact or_left_comm
  all_goals rfl

theorem load_eq_of_perm (documents : Documents)
    (apart : entries.Pairwise fun entry other => ¬ entry.Rivals other)
    (same : entries.Perm shuffled) : documents.load entries = documents.load shuffled := by
  refine same.foldl_eq' (fun entry member other member' documents => ?_) documents
  by_cases equal : entry = other
  · rw [equal]
  · exact put_put_comm documents (apart.forall member member' equal)

end Documents

namespace Store

/-- Two stores that store the same relationships, or fail alike, and fill every network
    alike. -/
structure Alike (store other : Store) : Prop where
  result : ∀ outage clock limit,
    (store.storeAll outage clock limit).1 = (other.storeAll outage clock limit).1
  ledger : ∀ outage clock limit,
    (store.storeAll outage clock limit).2.ledger = (other.storeAll outage clock limit).2.ledger
  fill : ∀ (network : Network) outage limit calls,
    network.fill ⟨store.documents.catalogue, outage⟩ limit calls =
      network.fill ⟨other.documents.catalogue, outage⟩ limit calls

/-- Entries among which there are no rivals can be loaded in any order and in any number
    of loads. -/
theorem alike_foldl_load {batches shuffled : List (List DocumentEntry)}
    (apart : batches.flatten.Pairwise fun entry other => ¬ entry.Rivals other)
    (same : batches.flatten.Perm shuffled.flatten) (settings : Settings) :
    (batches.foldl load (empty settings)).Alike (shuffled.foldl load (empty settings)) := by
  have stores : batches.foldl load (empty settings) = shuffled.foldl load (empty settings) := by
    rw [foldl_load, foldl_load, load, load, Documents.load_eq_of_perm _ apart same]
  rw [stores]
  exact ⟨fun _ _ _ => rfl, fun _ _ _ => rfl, fun _ _ _ _ => rfl⟩

/-- Of two arcs of one priority between the same fragments, the second may be loaded before
    anything else. -/
theorem alike_of_arc_first :
    ([DocumentEntry.sample [.plain "x" "A" "k", .plain "y" "A" "k"]].foldl load
      (empty .standard)).Alike
    ([[.arc "link" "p" "q" (.plain "y" "A" "k")],
      DocumentEntry.sample [.plain "x" "A" "k"]].foldl load (empty .standard)) := by
  refine alike_foldl_load ?_ ?_ .standard
  · simp [DocumentEntry.sample, DocumentEntry.Rivals, Arc.plain]
  · simp only [List.flatten_cons, List.flatten_nil, List.append_nil]
    exact List.perm_append_singleton _ (DocumentEntry.sample [.plain "x" "A" "k"])

end Store

end XbrlNetworks
