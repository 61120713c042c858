import XbrlNetworks.Proofs.Restoring
import XbrlNetworks.Proofs.Storing
import XbrlNetworks.Proofs.Taking

/-! # Fragments come from the documents

The tables of loaded documents give every fragment under its own index, as an
answer of its own or as an end of an arc.  Networks that are filled from
nothing hold no other fragments, so the ends of their relationships are found
again.
-/

namespace XbrlNetworks

open Std

theorem exists_of_mem_mapM {α β ε : Type} {work : α → Except ε β} {items : List α}
    {answers : List β} (h : items.mapM work = .ok answers) {answer : β}
    (member : answer ∈ answers) :
    ∃ item ∈ items, work item = .ok answer := by
  induction items generalizing answers with
  | nil =>
      cases h
      cases member
  | cons item items ih =>
      rw [List.mapM_cons] at h
      cases first : work item with
      | error fault =>
          rw [first] at h
          cases h
      | ok here =>
          cases later : items.mapM work with
          | error fault =>
              rw [first, later] at h
              cases h
          | ok rest =>
              rw [first, later] at h
              cases h
              rcases List.mem_cons.mp member with rfl | inRest
              · exact ⟨item, List.mem_cons_self, first⟩
              · obtain ⟨other, inItems, done⟩ := ih later inRest
                exact ⟨other, List.mem_cons_of_mem _ inItems, done⟩

namespace Documents

variable {documents : Documents} {index : Index} {fragment : Fragment}

theorem index_eq_of_read {row : FragmentRow} (h : row.read index = .ok fragment) :
    fragment.index = index := by
  unfold FragmentRow.read at h
  split at h
  · cases h
    rfl
  · cases h

theorem fragment?_of_mem_labelled {link : Index} {label : String} {fragments : List Fragment}
    (h : documents.labelled link label = .ok fragments) (member : fragment ∈ fragments) :
    documents.fragment? fragment.index = .ok (some fragment) := by
  obtain ⟨⟨index, row⟩, inRows, read⟩ := exists_of_mem_mapM h member
  obtain ⟨carrier, _, found⟩ := List.mem_filterMap.mp inRows
  obtain ⟨row', there, same⟩ := Option.map_eq_some_iff.mp found
  cases same
  rw [index_eq_of_read read, fragment?, there]
  simp only [read]
  rfl

theorem fragment?_of_mem_arcEnds {labelOf : ArcRow → String} {arc : Arc}
    {fragments : List Fragment} (h : documents.arcEnds labelOf arc = .ok fragments)
    (member : fragment ∈ fragments) : documents.fragment? fragment.index = .ok (some fragment) := by
  unfold arcEnds at h
  split at h
  · cases h
  · exact fragment?_of_mem_labelled h member

theorem lawful_catalogue (documents : Documents) : documents.catalogue.Lawful where
  index := by
    intro index fragment found
    change documents.fragment? index = _ at found
    unfold fragment? at found
    split at found
    · cases found
    · rename_i row _
      cases read : row.read index with
      | error fault =>
          rw [read] at found
          cases found
      | ok there =>
          rw [read] at found
          cases found
          exact index_eq_of_read read
  sources := fun _ _ asked _ member => fragment?_of_mem_arcEnds asked member
  targets := fun _ _ asked _ member => fragment?_of_mem_arcEnds asked member

end Documents

namespace Catalogue

variable {catalogue : Catalogue} {baseSet : BaseSet} {offer : Offer}

theorem mem_answered {α : Type} {answer : Except StoreFault (List α)} {item : α} :
    item ∈ answered answer ↔ ∃ items, answer = .ok items ∧ item ∈ items := by
  cases answer with
  | error fault => simp [answered, Except.toOption]
  | ok items => simp

theorem Lawful.ends_of_mem_offersOfArc (h : catalogue.Lawful) {link : ExtendedLink} {arc : Arc}
    (member : offer ∈ catalogue.offersOfArc link arc) :
    catalogue.fragment? offer.source.index = .ok (some offer.source) ∧
      catalogue.fragment? offer.target.index = .ok (some offer.target) := by
  obtain ⟨source, fromSources, inPairs⟩ := List.mem_flatMap.mp member
  obtain ⟨target, fromTargets, rfl⟩ := List.mem_map.mp inPairs
  obtain ⟨sources, hasSources, inSources⟩ := mem_answered.mp fromSources
  obtain ⟨targets, hasTargets, inTargets⟩ := mem_answered.mp fromTargets
  exact ⟨h.sources arc sources hasSources source inSources,
    h.targets arc targets hasTargets target inTargets⟩

theorem Lawful.ends_of_mem_offers (h : catalogue.Lawful)
    (member : offer ∈ catalogue.offers baseSet) :
    catalogue.fragment? offer.source.index = .ok (some offer.source) ∧
      catalogue.fragment? offer.target.index = .ok (some offer.target) := by
  obtain ⟨link, _, inLink⟩ := List.mem_flatMap.mp member
  obtain ⟨arc, _, inArc⟩ := List.mem_flatMap.mp inLink
  exact h.ends_of_mem_offersOfArc inArc

end Catalogue

namespace Network

variable {catalogue : Catalogue} {network next last : Network} {r : Relationship}

/-- All fragments of a network are what the catalogue gives under their indexes. -/
structure Fetched (catalogue : Catalogue) (network : Network) : Prop where
  kept : ∀ (index : Index) (fragment : Fragment), network.fragments[index]? = some fragment →
    catalogue.fragment? index = .ok (some fragment)
  log : ∃ log, network.Follows log ∧ ∀ r ∈ log, Analysis.Loaded catalogue r

theorem fetched_new {baseSet : BaseSet} (h : Network.new baseSet = .ok network) :
    network.Fetched catalogue := by
  refine ⟨fun index fragment found => ?_, [], (follows_new h).1, by simp⟩
  obtain ⟨_, _, nothing, _⟩ := new_eq_ok h
  simp [nothing] at found

theorem Fetched.keep {fragments : ExtTreeMap Index Fragment}
    (h : ∀ (index : Index) (fragment : Fragment), fragments[index]? = some fragment →
      catalogue.fragment? index = .ok (some fragment)) {added : Fragment}
    (loaded : catalogue.fragment? added.index = .ok (some added)) (index : Index)
    (fragment : Fragment) (found : (Network.keep fragments added)[index]? = some fragment) :
    catalogue.fragment? index = .ok (some fragment) := by
  simp only [Network.keep, ExtTreeMap.getElem?_insertIfNew, LawfulEqOrd.compare_eq_iff_eq] at found
  split at found
  · rename_i new
    cases found
    rwa [← new.1]
  · exact h index fragment found

theorem Fetched.insert {isNew : Bool} (h : network.Fetched catalogue)
    (loaded : Analysis.Loaded catalogue r) (inserted : network.insert r = .ok (next, isNew)) :
    next.Fetched catalogue := by
  obtain ⟨log, follows, allLoaded⟩ := h.log
  refine ⟨?_, log ++ [r], (follows.insert_ok inserted).1, ?_⟩
  · rcases insert_cases inserted with ⟨_, rfl⟩ | ⟨_, slot, rfl⟩ | ⟨_, rfl⟩
    · exact Fetched.keep (Fetched.keep h.kept loaded.1) loaded.2
    · exact h.kept
    · exact h.kept
  · intro other member
    rcases List.mem_append.mp member with earlier | last
    · exact allLoaded other earlier
    · exact List.mem_singleton.mp last ▸ loaded

theorem Fetched.of_resolves (h : network.Fetched catalogue) (lawful : catalogue.Lawful)
    {fragment resolved : Fragment} (resolves : network.Resolves catalogue fragment resolved)
    (loaded : catalogue.fragment? fragment.index = .ok (some fragment)) :
    catalogue.fragment? resolved.index = .ok (some resolved) := by
  obtain ⟨log, follows, _⟩ := h.log
  cases resolves with
  | itself _ => exact loaded
  | kept _ kept =>
      rw [(follows.coherent.kept _ _ kept).1]
      exact h.kept _ _ kept
  | fetched _ there => rwa [lawful.index _ _ there]

theorem Fetched.takes {offers : List Offer} {added : Nat} (lawful : catalogue.Lawful)
    (ends : ∀ offer ∈ offers, catalogue.fragment? offer.source.index = .ok (some offer.source) ∧
      catalogue.fragment? offer.target.index = .ok (some offer.target))
    (h : network.Takes catalogue offers last added) (fetched : network.Fetched catalogue) :
    last.Fetched catalogue := by
  induction h with
  | nil => exact fetched
  | cons _ _ source target inserted _ ih =>
      obtain ⟨atSource, atTarget⟩ := ends _ List.mem_cons_self
      refine ih (fun offer member => ends offer (List.mem_cons_of_mem _ member))
        (fetched.insert ⟨?_, ?_⟩ inserted)
      · exact fetched.of_resolves lawful source atSource
      · exact fetched.of_resolves lawful target atTarget

theorem Fetched.fill {connection : Connection} {limit : TimeLimit} {calls added : Nat}
    (h : network.Fetched connection.catalogue) (lawful : connection.catalogue.Lawful)
    (done : (network.fill connection limit calls).result = .ok added) :
    (network.fill connection limit calls).network.Fetched connection.catalogue :=
  h.takes lawful (fun _ member => lawful.ends_of_mem_offers member) (fill_eq_ok done).1

end Network

namespace Collection

variable {collection : Collection} {connection : Connection} {limit : TimeLimit}

/-- Every network holds only fragments that the catalogue gives. -/
def Fetched (catalogue : Catalogue) (collection : Collection) : Prop :=
  ∀ baseSet network, collection.network? baseSet = some network → network.Fetched catalogue

theorem fetched_empty (catalogue : Catalogue) : empty.Fetched catalogue := by
  intro baseSet network found
  rw [network?_empty] at found
  cases found

theorem Fetched.of_networkOrNew {catalogue : Catalogue} {baseSet : BaseSet} {network : Network}
    (h : collection.Fetched catalogue)
    (opened : collection.networkOrNew baseSet = .ok network) : network.Fetched catalogue := by
  rcases networkOrNew_eq_ok opened with there | ⟨_, new⟩
  · exact h baseSet network there
  · exact Network.fetched_new new

theorem Fetched.fill {baseSet : BaseSet} {calls added : Nat}
    (h : collection.Fetched connection.catalogue) (lawful : connection.catalogue.Lawful)
    (done : (collection.fill connection limit baseSet calls).result = .ok added) :
    (collection.fill connection limit baseSet calls).collection.Fetched connection.catalogue := by
  unfold Collection.fill at done ⊢
  cases opened : collection.networkOrNew baseSet with
  | error flaw =>
      simp only [opened] at done
      cases done
  | ok network =>
      simp only [opened] at done ⊢
      have fetched := h.of_networkOrNew opened
      have rest : (collection.takeOut baseSet).Fetched connection.catalogue := by
        intro other network found
        rw [network?_takeOut] at found
        split at found
        · cases found
        · exact h other network found
      unfold putUnlessEmpty
      split
      · exact rest
      · intro other network' found
        rw [network?_put] at found
        split at found
        · cases found
          exact fetched.fill lawful done
        · exact rest other network' found

theorem Fetched.fillLinkRoles {arcRole : String} {linkRoles : List String} {added calls total : Nat}
    (h : collection.Fetched connection.catalogue) (lawful : connection.catalogue.Lawful)
    (done : (Collection.fillLinkRoles connection limit arcRole linkRoles collection added
      calls).result = .ok total) :
    (Collection.fillLinkRoles connection limit arcRole linkRoles collection added
      calls).collection.Fetched connection.catalogue := by
  induction linkRoles generalizing collection added calls with
  | nil => exact h
  | cons linkRole linkRoles ih =>
      simp only [Collection.fillLinkRoles] at done ⊢
      cases filled : (collection.fill connection limit ⟨arcRole, linkRole⟩ calls).result with
      | error failure =>
          simp only [filled] at done
          cases done
      | ok more =>
          simp only [filled] at done ⊢
          exact ih (h.fill lawful filled) done

theorem Fetched.fillArcRole {arcRole : String} {calls total : Nat}
    (h : collection.Fetched connection.catalogue) (lawful : connection.catalogue.Lawful)
    (done : (collection.fillArcRole connection limit arcRole calls).result = .ok total) :
    (collection.fillArcRole connection limit arcRole calls).collection.Fetched
      connection.catalogue := by
  unfold Collection.fillArcRole at done ⊢
  cases answered : connection.outage.answer calls connection.catalogue.linkRoles with
  | error fault =>
      simp only [answered] at done
      cases done
  | ok linkRoles =>
      simp only [answered] at done ⊢
      exact h.fillLinkRoles lawful done

end Collection

namespace Store

theorem fetched_fillArcRoles {connection : Connection} {limit : TimeLimit}
    {arcRoles : List String} {collection filled : Collection} {calls total : Nat}
    (h : collection.Fetched connection.catalogue) (lawful : connection.catalogue.Lawful)
    (done : fillArcRoles connection limit arcRoles collection calls = .ok (filled, total)) :
    filled.Fetched connection.catalogue := by
  induction arcRoles generalizing collection calls with
  | nil =>
      cases done
      exact h
  | cons arcRole arcRoles ih =>
      obtain ⟨_, _, _, filledFirst, done⟩ := fillArcRoles_cons_eq_ok done
      exact ih (h.fillArcRole lawful filledFirst) done

theorem fetched_networks {store : Store} {outage : Outage} {limit : TimeLimit}
    {collection : Collection} {calls : Nat}
    (h : store.networks outage limit = .ok (collection, calls)) :
    collection.Fetched store.documents.catalogue :=
  fetched_fillArcRoles (Collection.fetched_empty _) store.documents.lawful_catalogue
    (networks_eq_ok h)

end Store

end XbrlNetworks
