import XbrlNetworks.Document.Tables
import XbrlNetworks.Proofs.Collections
import XbrlNetworks.Proofs.Offers
import XbrlNetworks.Proofs.Representation

/-! # Which arc roles a collection lists

A collection lists an arc role as soon as it has a network of it, and never
takes it off the list.  Networks with relationships stay, so listed arc roles
have networks as long as none was put in without relationships: such a network
is taken out when it is filled in vain, and the arc role stays listed.
-/

namespace XbrlNetworks

open Std

namespace Network

variable {network next : Network} {r : Relationship} {isNew : Bool}

theorem Grows.size_le (h : network.Grows next) : network.size ≤ next.size := by
  induction h with
  | refl => exact Nat.le_refl _
  | insert _ inserted ih =>
      rcases insert_cases inserted with ⟨_, rfl⟩ | ⟨_, slot, rfl⟩ | ⟨_, rfl⟩
      · simp only [size, opened, Array.size_push] at ih ⊢
        omega
      · simpa only [size, joined, Array.size_setIfInBounds] using ih
      · exact ih

theorem isEmpty_eq_false_iff : network.isEmpty = false ↔ 0 < network.size := by
  simp [isEmpty, size, Array.isEmpty_eq_false_iff, Array.size_pos_iff]

theorem Follows.isEmpty_eq_false {log : Log} (h : network.Follows log) (some : log ≠ []) :
    network.isEmpty = false := by
  obtain ⟨r, member⟩ := List.exists_mem_of_ne_nil log some
  have counted : r.identity ∈ (log.map Relationship.identity).dedup := by
    simpa using ⟨r, member, rfl⟩
  rw [isEmpty_eq_false_iff, h.size]
  exact List.length_pos_of_mem counted

theorem Reachable.isEmpty_eq_false_of_insert (h : network.Reachable)
    (inserted : network.insert r = .ok (next, isNew)) : next.isEmpty = false := by
  obtain ⟨log, follows⟩ := h.follows
  exact (follows.insert_ok inserted).1.isEmpty_eq_false (by simp)

end Network

namespace Collection

variable {collection next last : Collection} {network : Network} {baseSet : BaseSet}
  {arcRole : String} {past : List Collection}

def Populated (collection : Collection) (baseSet : BaseSet) : Prop :=
  ∃ network, collection.network? baseSet = some network ∧ network.isEmpty = false

section Roles

theorem linkRoles_ne_nil_iff : collection.linkRoles arcRole ≠ [] ↔
    ∃ linkRole, (collection.network? ⟨arcRole, linkRole⟩).isSome = true := by
  simp only [network?, ← ExtTreeMap.mem_iff_isSome_getElem?, ← ExtTreeMap.mem_keys]
  constructor
  · exact List.exists_mem_of_ne_nil _
  · rintro ⟨_, member⟩
    exact List.ne_nil_of_mem member

theorem linkRoles_ne_nil_of_populated (h : collection.Populated baseSet) :
    collection.linkRoles baseSet.arcRole ≠ [] := by
  obtain ⟨network, found, _⟩ := h
  exact linkRoles_ne_nil_iff.mpr ⟨baseSet.linkRole, Option.isSome_iff_exists.mpr ⟨network, found⟩⟩

theorem mem_arcRoles_of_linkRoles_ne_nil (h : collection.linkRoles arcRole ≠ []) :
    arcRole ∈ collection.arcRoles := by
  rw [arcRoles, ExtTreeMap.mem_keys]
  by_contra absent
  simp [linkRoles, ofArcRole, ExtTreeMap.getElem?_eq_none absent] at h

theorem mem_arcRoles_put :
    arcRole ∈ (collection.put network).arcRoles ↔
      network.baseSet.arcRole = arcRole ∨ arcRole ∈ collection.arcRoles := by
  simp only [arcRoles, put, ExtTreeMap.mem_keys, ExtTreeMap.mem_insert,
    LawfulEqOrd.compare_eq_iff_eq]

theorem mem_arcRoles_takeOut :
    arcRole ∈ (collection.takeOut baseSet).arcRoles ↔ arcRole ∈ collection.arcRoles := by
  simp only [arcRoles, takeOut, ExtTreeMap.mem_keys, ExtTreeMap.mem_modify]

end Roles

/-- What adding relationships and filling do to a collection: listed arc roles stay listed, an
    arc role is new on the list only with a network that has relationships, and base sets that
    have relationships keep some. -/
structure Extends (collection next : Collection) : Prop where
  listed : ∀ arcRole ∈ collection.arcRoles, arcRole ∈ next.arcRoles
  fresh : ∀ arcRole ∈ next.arcRoles, arcRole ∈ collection.arcRoles ∨
    ∃ linkRole, next.Populated ⟨arcRole, linkRole⟩
  kept : ∀ baseSet, collection.Populated baseSet → next.Populated baseSet

theorem Extends.refl (collection : Collection) : collection.Extends collection :=
  ⟨fun _ member => member, fun _ member => .inl member, fun _ populated => populated⟩

theorem Extends.trans (h : collection.Extends next) (h' : next.Extends last) :
    collection.Extends last := by
  refine ⟨fun arcRole member => h'.listed _ (h.listed _ member), fun arcRole member => ?_,
    fun baseSet populated => h'.kept _ (h.kept _ populated)⟩
  rcases h'.fresh arcRole member with before | populated
  · rcases h.fresh arcRole before with first | ⟨linkRole, populated⟩
    · exact .inl first
    · exact .inr ⟨linkRole, h'.kept _ populated⟩
  · exact .inr populated

theorem populated_put (occupied : network.isEmpty = false) :
    (collection.put network).Populated network.baseSet :=
  ⟨network, by rw [network?_put, if_pos rfl], occupied⟩

theorem extends_put (occupied : network.isEmpty = false) :
    collection.Extends (collection.put network) := by
  refine ⟨fun arcRole member => mem_arcRoles_put.mpr (.inr member), ?_, ?_⟩
  · intro arcRole member
    rcases mem_arcRoles_put.mp member with rfl | before
    · exact .inr ⟨network.baseSet.linkRole, populated_put occupied⟩
    · exact .inl before
  · rintro baseSet ⟨other, found, occupied'⟩
    by_cases here : network.baseSet = baseSet
    · exact here ▸ populated_put occupied
    · exact ⟨other, by rw [network?_put, if_neg here, found], occupied'⟩

theorem Sound.extends_insert {r : Relationship} {isNew : Bool} (h : collection.Sound)
    (inserted : collection.insert r = .ok (next, isNew)) : collection.Extends next := by
  obtain ⟨network, accepted, rfl⟩ := insert_eq_ok inserted
  exact extends_put ((h.reachable_getD r).isEmpty_eq_false_of_insert accepted)

/-- Whichever network is taken out to be filled, each that has relationships is there afterwards
    and has got at most more of them. -/
theorem Sound.exists_grown_fill (h : collection.Sound) (connection : Connection)
    (limit : TimeLimit) (baseSet : BaseSet) (calls : Nat) {other : BaseSet}
    (found : collection.network? other = some network) (occupied : network.isEmpty = false) :
    ∃ next, (collection.fill connection limit baseSet calls).collection.network? other = some next ∧
      network.Grows next ∧ next.isEmpty = false := by
  by_cases here : baseSet = other
  · subst here
    have opened : collection.networkOrNew baseSet = .ok network := by rw [networkOrNew, found]
    have grown := network.fill_grows connection limit calls
    have stays : (network.fill connection limit calls).network.isEmpty = false := by
      rw [Network.isEmpty_eq_false_iff] at occupied ⊢
      exact Nat.lt_of_lt_of_le occupied grown.size_le
    refine ⟨_, ?_, grown, stays⟩
    rw [h.network?_fill opened, if_pos rfl, Option.filter_some, stays]
    rfl
  · exact ⟨network, by rw [h.network?_fill_of_ne here, found], .refl, occupied⟩

theorem Sound.extends_fill (h : collection.Sound) (connection : Connection) (limit : TimeLimit)
    (baseSet : BaseSet) (calls : Nat) :
    collection.Extends (collection.fill connection limit baseSet calls).collection := by
  have kept : ∀ other, collection.Populated other →
      (collection.fill connection limit baseSet calls).collection.Populated other := by
    rintro other ⟨network, found, occupied⟩
    obtain ⟨next, found', _, stays⟩ :=
      h.exists_grown_fill connection limit baseSet calls found occupied
    exact ⟨next, found', stays⟩
  unfold Collection.fill at kept ⊢
  cases opened : collection.networkOrNew baseSet with
  | error flaw => exact .refl _
  | ok network =>
      simp only [opened, putUnlessEmpty] at kept ⊢
      split
      · rename_i vacant
        rw [if_pos vacant] at kept
        exact ⟨fun _ => mem_arcRoles_takeOut.mpr, fun _ member =>
          .inl (mem_arcRoles_takeOut.mp member), kept⟩
      · rename_i occupied
        rw [if_neg occupied] at kept
        have put : (collection.takeOut baseSet).Extends ((collection.takeOut baseSet).put _) :=
          extends_put (Bool.not_eq_true _ ▸ occupied)
        refine ⟨fun _ member => put.listed _ (mem_arcRoles_takeOut.mpr member), ?_, kept⟩
        intro arcRole member
        rcases put.fresh arcRole member with before | populated
        · exact .inl (mem_arcRoles_takeOut.mp before)
        · exact .inr populated

theorem Sound.extends_fillLinkRoles (connection : Connection) (limit : TimeLimit)
    (arcRole : String) (linkRoles : List String) {added calls : Nat} (h : collection.Sound) :
    collection.Extends (Collection.fillLinkRoles connection limit arcRole linkRoles collection
      added calls).collection := by
  induction linkRoles generalizing collection added calls with
  | nil => exact .refl _
  | cons linkRole linkRoles ih =>
      have filled := h.extends_fill connection limit ⟨arcRole, linkRole⟩ calls
      simp only [Collection.fillLinkRoles]
      split
      · exact filled
      · exact filled.trans (ih (h.fill connection limit ⟨arcRole, linkRole⟩ calls))

theorem Sound.extends_fillArcRole (h : collection.Sound) (connection : Connection)
    (limit : TimeLimit) (arcRole : String) (calls : Nat) :
    collection.Extends (collection.fillArcRole connection limit arcRole calls).collection := by
  unfold Collection.fillArcRole
  split
  · exact .refl _
  · exact h.extends_fillLinkRoles connection limit arcRole _

theorem Sound.insertAll {relationships : List Relationship} {added : Nat} (h : collection.Sound)
    (run : collection.insertAll relationships = .ok (next, added)) :
    next.Sound ∧ collection.Extends next := by
  unfold Collection.insertAll at run
  -- The count that the run starts with has no part in the networks.
  generalize 0 = before at run
  induction relationships generalizing collection before with
  | nil =>
      cases run
      exact ⟨h, .refl _⟩
  | cons r rest ih =>
      rw [List.foldlM_cons] at run
      obtain ⟨_, step, run⟩ := exists_of_bind_eq_ok run
      obtain ⟨answer, inserted, rfl⟩ := exists_of_map_eq_ok step
      obtain ⟨sound, later⟩ := ih (h.insert inserted) _ run
      exact ⟨sound, (h.extends_insert inserted).trans later⟩

/-- One change of a collection.  A refused relationship leaves it as it is, and a filling that
    fails leaves what has been filled so far. -/
inductive Step : Collection → Collection → Prop where
  | insert {collection next : Collection} {r : Relationship} {isNew : Bool} :
    collection.insert r = .ok (next, isNew) → Step collection next
  | insertAll {collection next : Collection} {relationships : List Relationship} {added : Nat} :
    collection.insertAll relationships = .ok (next, added) → Step collection next
  | put {collection : Collection} {network : Network} :
    network.Reachable → Step collection (collection.put network)
  | fill {collection : Collection} (connection : Connection) (limit : TimeLimit)
    (baseSet : BaseSet) (calls : Nat) :
    Step collection (collection.fill connection limit baseSet calls).collection
  | fillArcRole {collection : Collection} (connection : Connection) (limit : TimeLimit)
    (arcRole : String) (calls : Nat) :
    Step collection (collection.fillArcRole connection limit arcRole calls).collection

/-- A collection that has come about from an empty one, after the collections that it has been
    before, the latest first. -/
inductive Run : List Collection → Collection → Prop where
  | start : Run [] empty
  | step {past : List Collection} {collection next : Collection} :
    Run past collection → Step collection next → Run (collection :: past) next

theorem Sound.step (h : collection.Sound) (step : Step collection next) : next.Sound := by
  cases step with
  | insert inserted => exact h.insert inserted
  | insertAll run => exact (h.insertAll run).1
  | put reached => exact h.put reached
  | fill connection limit baseSet calls => exact h.fill connection limit baseSet calls
  | fillArcRole connection limit arcRole calls =>
      exact h.fillArcRole connection limit arcRole calls

/-- Every change but a network being put in extends the collection. -/
theorem Sound.step_cases (h : collection.Sound) (step : Step collection next) :
    collection.Extends next ∨ ∃ network, next = collection.put network := by
  cases step with
  | insert inserted => exact .inl (h.extends_insert inserted)
  | insertAll run => exact .inl (h.insertAll run).2
  | put _ => exact .inr ⟨_, rfl⟩
  | fill connection limit baseSet calls =>
      exact .inl (h.extends_fill connection limit baseSet calls)
  | fillArcRole connection limit arcRole calls =>
      exact .inl (h.extends_fillArcRole connection limit arcRole calls)

theorem Sound.mem_arcRoles_step (h : collection.Sound) (step : Step collection next) :
    arcRole ∈ next.arcRoles ↔ arcRole ∈ collection.arcRoles ∨ next.linkRoles arcRole ≠ [] := by
  rcases h.step_cases step with extended | ⟨network, rfl⟩
  · constructor
    · intro member
      rcases extended.fresh arcRole member with before | ⟨linkRole, populated⟩
      · exact .inl before
      · exact .inr (linkRoles_ne_nil_of_populated populated)
    · rintro (before | serves)
      · exact extended.listed arcRole before
      · exact mem_arcRoles_of_linkRoles_ne_nil serves
  · constructor
    · intro member
      rcases mem_arcRoles_put.mp member with rfl | before
      · refine .inr (linkRoles_ne_nil_iff.mpr ⟨network.baseSet.linkRole, ?_⟩)
        rw [network?_put, if_pos rfl, Option.isSome_some]
      · exact .inl before
    · rintro (before | serves)
      · exact mem_arcRoles_put.mpr (.inr before)
      · exact mem_arcRoles_of_linkRoles_ne_nil serves

theorem Sound.linkRoles_step (h : collection.Sound) (step : Step collection next)
    (populated : collection.Populated baseSet) : next.linkRoles baseSet.arcRole ≠ [] := by
  rcases h.step_cases step with extended | ⟨network, rfl⟩
  · exact linkRoles_ne_nil_of_populated (extended.kept baseSet populated)
  · obtain ⟨other, found, _⟩ := populated
    refine linkRoles_ne_nil_iff.mpr ⟨baseSet.linkRole, ?_⟩
    rw [network?_put]
    split
    · rfl
    · rw [found, Option.isSome_some]

theorem Run.sound (h : Run past collection) : collection.Sound := by
  induction h with
  | start => exact sound_empty
  | step _ changed ih => exact ih.step changed

theorem Run.mem_arcRoles_iff (h : Run past collection) :
    arcRole ∈ collection.arcRoles ↔ collection.linkRoles arcRole ≠ [] ∨
      ∃ earlier ∈ past, earlier.linkRoles arcRole ≠ [] := by
  induction h with
  | start => simp [arcRoles, linkRoles, ofArcRole, empty]
  | step before changed ih =>
      rw [before.sound.mem_arcRoles_step changed, ih, List.exists_mem_cons_iff]
      exact or_comm

theorem Run.linkRoles_ne_nil (h : Run past collection)
    (occupied : ∀ earlier ∈ past, ∀ baseSet network, earlier.network? baseSet = some network →
      network.isEmpty = false) :
    ∀ earlier ∈ past, earlier.linkRoles arcRole ≠ [] → collection.linkRoles arcRole ≠ [] := by
  induction h with
  | start => simp
  | @step past collection next before changed ih =>
      have last : collection.linkRoles arcRole ≠ [] → next.linkRoles arcRole ≠ [] := by
        intro serves
        obtain ⟨linkRole, there⟩ := linkRoles_ne_nil_iff.mp serves
        obtain ⟨network, found⟩ := Option.isSome_iff_exists.mp there
        exact before.sound.linkRoles_step changed
          ⟨network, found, occupied collection List.mem_cons_self _ network found⟩
      intro earlier member serves
      rcases List.mem_cons.mp member with rfl | sooner
      · exact last serves
      · exact last (ih (fun other inPast => occupied other (List.mem_cons_of_mem _ inPast))
          earlier sooner serves)

/-- Networks stand under their own roles, and the arc roles with link roles are those with
    networks.  The listed arc roles are the same just when no arc role has lost the networks that
    it had before, and none has if every network has had relationships at all times. -/
theorem Run.listed_iff (h : Run past collection) :
    (∀ baseSet network, collection.network? baseSet = some network →
        network.baseSet = baseSet) ∧
      (∀ arcRole, collection.linkRoles arcRole ≠ [] ↔
        ∃ linkRole, (collection.network? ⟨arcRole, linkRole⟩).isSome = true) ∧
      ((∀ arcRole, arcRole ∈ collection.arcRoles ↔ collection.linkRoles arcRole ≠ []) ↔
        ∀ earlier ∈ past, ∀ arcRole, earlier.linkRoles arcRole ≠ [] →
          collection.linkRoles arcRole ≠ []) ∧
      ((∀ earlier ∈ past, ∀ baseSet network, earlier.network? baseSet = some network →
          network.isEmpty = false) →
        ∀ arcRole, arcRole ∈ collection.arcRoles ↔ collection.linkRoles arcRole ≠ []) := by
  have listed : (∀ arcRole, arcRole ∈ collection.arcRoles ↔ collection.linkRoles arcRole ≠ []) ↔
      ∀ earlier ∈ past, ∀ arcRole, earlier.linkRoles arcRole ≠ [] →
        collection.linkRoles arcRole ≠ [] := by
    simp only [h.mem_arcRoles_iff, or_iff_left_iff_imp]
    constructor
    · exact fun none earlier member arcRole serves => none arcRole ⟨earlier, member, serves⟩
    · exact fun none arcRole ⟨earlier, member, serves⟩ => none earlier member arcRole serves
  refine ⟨fun baseSet network found => (h.sound baseSet network found).2,
    fun arcRole => linkRoles_ne_nil_iff, listed, fun occupied => listed.mpr ?_⟩
  exact fun earlier member arcRole => h.linkRoles_ne_nil occupied earlier member

/-- A network without relationships is filled in vain and taken out, and its arc role stays
    listed. -/
theorem listed_of_filled_in_vain : ∃ past collection, Run past collection ∧
    "A" ∈ collection.arcRoles ∧ collection.linkRoles "A" = [] ∧
      ∀ linkRole, collection.network? ⟨"A", linkRole⟩ = none := by
  let vacant := Network.openFor (.sample "x" "s" "t" .optional)
  let put := empty.put vacant
  let last := (put.fill ⟨Documents.empty.catalogue, .never⟩ none ⟨"A", "L"⟩ 0).collection
  have run : Run [put, empty] last :=
    .step (.step .start (.put (Network.reachable_openFor _))) (.fill _ _ _ _)
  have nothing : last.linkRoles "A" = [] := by decide +kernel
  refine ⟨_, last, run, by decide +kernel, nothing, fun linkRole => ?_⟩
  by_contra there
  exact linkRoles_ne_nil_iff.mpr ⟨linkRole, Option.isSome_iff_ne_none.mpr there⟩ nothing

/-- A network that is opened again after it has been taken out makes up for it. -/
theorem listed_of_opened_again : ∃ past collection, Run past collection ∧
    (∃ earlier ∈ past, "A" ∈ earlier.arcRoles ∧ earlier.linkRoles "A" = []) ∧
      ∀ arcRole, arcRole ∈ collection.arcRoles ↔ collection.linkRoles arcRole ≠ [] := by
  let r := Relationship.sample "x" "s" "t" .optional
  let put := empty.put (.openFor r)
  let out := (put.fill ⟨Documents.empty.catalogue, .never⟩ none ⟨"A", "L"⟩ 0).collection
  have before : Run [put, empty] out :=
    .step (.step .start (.put (Network.reachable_openFor _))) (.fill _ _ _ _)
  have again : (out.insert r).map (fun answer => (answer.1.arcRoles, answer.1.linkRoles "A")) =
      .ok (["A"], ["L"]) := by
    decide +kernel
  cases inserted : out.insert r with
  | error failure =>
      rw [inserted] at again
      cases again
  | ok answer =>
      obtain ⟨last, isNew⟩ := answer
      rw [inserted] at again
      obtain ⟨roles, serves⟩ := Prod.mk.inj (Except.ok.inj again)
      have run : Run [out, put, empty] last := .step before (.insert inserted)
      refine ⟨_, last, run, ⟨out, List.mem_cons_self, by decide +kernel, by decide +kernel⟩, ?_⟩
      refine run.listed_iff.2.2.1.mpr fun earlier member arcRole served => ?_
      -- No other arc role has ever been on the list.
      have listed : arcRole ∈ last.arcRoles :=
        run.mem_arcRoles_iff.mpr (.inr ⟨earlier, member, served⟩)
      rw [show last.arcRoles = ["A"] from roles, List.mem_singleton] at listed
      rw [listed, show last.linkRoles "A" = ["L"] from serves]
      exact List.cons_ne_nil _ _

end Collection

end XbrlNetworks
