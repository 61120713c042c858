import XbrlNetworks.Proofs.Binding
import XbrlNetworks.Proofs.Shuffling
import XbrlNetworks.Proofs.Steps

/-! # What more documents add

Entries that are no rivals of earlier ones leave all rows as they are and only add
to them.  Whatever was offered before is offered still, every index that had a
fragment has the same one, and so every offer is bound as before.
-/

namespace XbrlNetworks

open Std

namespace DocumentEntry

variable {entry : DocumentEntry}

theorem rivals_of_fragmentAt? {fragment found : Fragment}
    (holds : fragmentAt? fragment.index entry = some found) :
    entry.Rivals (.fragment fragment) := by
  cases entry with
  | fragment loaded =>
      rw [fragmentAt?, Option.ite_none_right_eq_some] at holds
      exact holds.1
  | link | member | arc => cases holds

theorem rivals_of_linkAt? {link found : ExtendedLink}
    (holds : linkAt? link.index entry = some found) : entry.Rivals (.link link) := by
  cases entry with
  | link loaded =>
      rw [linkAt?, Option.ite_none_right_eq_some] at holds
      exact holds.1
  | fragment | member | arc => cases holds

theorem rivals_of_arcAt? {link : Index} {sourceLabel targetLabel : String} {arc : Arc}
    {found : PlacedArc} (holds : arcAt? arc.index entry = some found) :
    entry.Rivals (.arc link sourceLabel targetLabel arc) := by
  cases entry with
  | arc link' sourceLabel' targetLabel' loaded =>
      rw [arcAt?, Option.ite_none_right_eq_some] at holds
      exact holds.1
  | fragment | link | member => cases holds

end DocumentEntry

open DocumentEntry (latest? fragmentAt? linkAt? arcAt?)

namespace Documents

variable {documents whole : Documents} {log later : List DocumentEntry} {entry : DocumentEntry}

/-- All rows of some documents stand in others too. -/
structure Within (documents whole : Documents) : Prop where
  fragments : ∀ (index : Index) (row : FragmentRow),
    documents.fragments[index]? = some row → whole.fragments[index]? = some row
  links : ∀ (index : Index) (role : String),
    documents.links[index]? = some role → whole.links[index]? = some role
  arcs : ∀ (index : Index) (row : ArcRow),
    documents.arcs[index]? = some row → whole.arcs[index]? = some row
  members : ∀ member ∈ documents.members, member ∈ whole.members

theorem Within.refl (documents : Documents) : documents.Within documents :=
  ⟨fun _ _ found => found, fun _ _ found => found, fun _ _ found => found, fun _ inside => inside⟩

theorem getElem?_insert_of_vacant {β : Type} {rows all : ExtTreeMap Index β} {index own : Index}
    {row : β}
    (within : ∀ (index : Index) (row : β), rows[index]? = some row → all[index]? = some row)
    (vacant : rows[own]? = none) (found : rows[index]? = some row) (added : β) :
    (all.insert own added)[index]? = some row := by
  rw [ExtTreeMap.getElem?_insert, if_neg, within index row found]
  rw [LawfulEqOrd.compare_eq_iff_eq]
  rintro rfl
  rw [vacant] at found
  cases found

theorem Within.put (h : documents.Within whole) (records : documents.Records log)
    (apart : ∀ earlier ∈ log, ¬ earlier.Rivals entry) : documents.Within (whole.put entry) := by
  have vacant : ∀ {α : Type} {held : DocumentEntry → Option α},
      (∀ earlier item, held earlier = some item → earlier.Rivals entry) →
        latest? held log = none := by
    intro α held rivals
    rw [Option.eq_none_iff_forall_ne_some]
    intro item last
    obtain ⟨earlier, member, holds⟩ := DocumentEntry.exists_of_latest? last
    exact apart earlier member (rivals earlier item holds)
  cases entry with
  | fragment fragment =>
      have none : documents.fragments[fragment.index]? = none := by
        rw [records.fragments, vacant fun _ _ => DocumentEntry.rivals_of_fragmentAt?]
        rfl
      exact ⟨fun _ _ found => getElem?_insert_of_vacant h.fragments none found _, h.links, h.arcs,
        h.members⟩
  | link link =>
      have none : documents.links[link.index]? = none := by
        rw [records.links, vacant fun _ _ => DocumentEntry.rivals_of_linkAt?]
        rfl
      exact ⟨h.fragments, fun _ _ found => getElem?_insert_of_vacant h.links none found _, h.arcs,
        h.members⟩
  | member link label fragment =>
      exact ⟨h.fragments, h.links, h.arcs, fun member inside =>
        ExtTreeSet.mem_insert.mpr (.inr (h.members member inside))⟩
  | arc link sourceLabel targetLabel arc =>
      have none : documents.arcs[arc.index]? = none := by
        rw [records.arcs, vacant fun _ _ => DocumentEntry.rivals_of_arcAt?]
        rfl
      exact ⟨h.fragments, h.links, fun _ _ found => getElem?_insert_of_vacant h.arcs none found _,
        h.members⟩

theorem Within.load (h : documents.Within whole) (records : documents.Records log)
    (apart : ∀ earlier ∈ log, ∀ entry ∈ later, ¬ earlier.Rivals entry) :
    documents.Within (whole.load later) := by
  refine List.foldlRecOn later Documents.put h fun _ within entry member => ?_
  exact within.put records fun earlier inLog => apart earlier inLog entry member

theorem within_load (apart : ∀ earlier ∈ log, ∀ entry ∈ later, ¬ earlier.Rivals entry) :
    (empty.load log).Within ((empty.load log).load later) :=
  (Within.refl _).load (records_load log) apart

section Within

variable {baseSet : BaseSet} {fragment : Fragment} {index link : Index} {label : String}
  {offer : Offer}

theorem Within.carries (h : documents.Within whole)
    (carries : documents.Carries link label fragment) : whole.Carries link label fragment :=
  ⟨h.fragments _ _ carries.has, h.members _ carries.member⟩

theorem Within.fragment? (h : documents.Within whole) (readable : documents.Readable)
    (found : documents.catalogue.fragment? index = .ok (some fragment)) :
    whole.catalogue.fragment? index = .ok (some fragment) := by
  obtain ⟨rfl, has⟩ := readable.has_of_fragment? found
  exact Has.fragment?_eq (h.fragments _ _ has)

theorem Within.mem_offers (h : documents.Within whole) (readable : documents.Readable)
    (readable' : whole.Readable) (offered : offer ∈ documents.catalogue.offers baseSet) :
    offer ∈ whole.catalogue.offers baseSet := by
  obtain ⟨found, linkRole, arcRole, sourceLabel, targetLabel, has, source, target⟩ :=
    readable.mem_offers.mp offered
  exact readable'.mem_offers.mpr ⟨h.links _ _ found, linkRole, arcRole, sourceLabel, targetLabel,
    h.arcs _ _ has, h.carries source, h.carries target⟩

end Within

end Documents

namespace Network

variable {documents whole : Documents} {network other : Network} {offer : Offer}
  {r : Relationship} {index : Index} {fragment : Fragment}

/-- What stands for an index in documents does so in all that they are within, as long as the
    network has kept nothing but what they have. -/
theorem standing_of_within (h : documents.Within whole) (readable : documents.Readable)
    (loaded : documents.catalogue.standing ∅ index = some fragment) :
    whole.catalogue.standing ∅ index = some fragment := by
  rcases Catalogue.standing_cases loaded with kept | ⟨absent, there⟩
  · simp at kept
  · exact Catalogue.standing_of_fetched absent (h.fragment? readable there)

theorem standsAlike_of_within (h : documents.Within whole) (readable : documents.Readable)
    (vacant : network.fragments = ∅) (alike : documents.catalogue.StandsAlike network other) :
    whole.catalogue.StandsAlike network other := by
  intro index
  rw [vacant]
  cases kept : other.fragments[index]? with
  | none => simp [Catalogue.standing, kept]
  | some fragment =>
      have stands := alike index
      rw [Catalogue.standing_of_kept kept, vacant] at stands
      rw [Catalogue.standing_of_kept kept, standing_of_within h readable stands.symm]

/-- An offer is bound to the same relationship when there are more documents. -/
theorem Binds.of_within (h : documents.Within whole) (readable : documents.Readable)
    (vacant : network.fragments = ∅) (binds : network.Binds documents.catalogue offer r) :
    network.Binds whole.catalogue offer r := by
  have resolved : ∀ {fragment resolved : Fragment},
      documents.catalogue.resolved? network.fragments fragment = some resolved →
        whole.catalogue.resolved? network.fragments fragment = some resolved := by
    intro fragment resolved found
    rw [vacant, Catalogue.resolved?_eq_some_iff] at found ⊢
    exact found.imp_right fun ⟨target, locates, stands⟩ =>
      ⟨target, locates, standing_of_within h readable stands⟩
  exact ⟨binds.arc, binds.link, resolved binds.source, resolved binds.target⟩

end Network

end XbrlNetworks
