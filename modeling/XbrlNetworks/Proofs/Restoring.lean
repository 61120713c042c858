import Mathlib.Data.List.Forall2
import XbrlNetworks.Analysis
import XbrlNetworks.Proofs.Numerals

/-! # Records are made relationships again

A record keeps everything of a relationship but its fragments, and these are
fetched.  If the catalogue has them, a record gives back the relationship that
it was made of, field by field.
-/

namespace XbrlNetworks

open Std

namespace Relationship

theorem bind_self (r : Relationship) : bind r.arc r.source r.target r.link = .ok r := by
  simp [bind, r.hasArcRole, r.hasLinkRole, r.sourceResolved, r.targetResolved]

variable {arc : Arc} {source target : Fragment} {link : ExtendedLink} {flaw : Flaw}

/-- An arc, two ends and an extended link keep the rules of construction. -/
structure Fit (arc : Arc) (source target : Fragment) (link : ExtendedLink) : Prop where
  hasArcRole : arc.role ≠ ""
  hasLinkRole : link.role ≠ ""
  sourceResolved : source.isLocator = false
  targetResolved : target.isLocator = false

/-- The first rule of construction that an arc, two ends and an extended link break. -/
inductive Unfit (arc : Arc) (source target : Fragment) (link : ExtendedLink) : Flaw → Prop where
  | arcRole : arc.role = "" → Unfit arc source target link (.arcWithoutRole arc.index)
  | linkRole : arc.role ≠ "" → link.role = "" →
    Unfit arc source target link (.linkWithoutRole link.index)
  | source : arc.role ≠ "" → link.role ≠ "" → source.isLocator = true →
    Unfit arc source target link (.unresolvedEndpoint source.index)
  | target : arc.role ≠ "" → link.role ≠ "" → source.isLocator = false →
    target.isLocator = true → Unfit arc source target link (.unresolvedEndpoint target.index)

theorem Fit.bind_eq_ok (h : Fit arc source target link) :
    bind arc source target link = .ok ⟨arc, source, target, link, h.hasArcRole, h.hasLinkRole,
      h.sourceResolved, h.targetResolved⟩ :=
  bind_self ⟨arc, source, target, link, _, _, _, _⟩

theorem Unfit.bind_eq_error (h : Unfit arc source target link flaw) :
    bind arc source target link = .error flaw := by
  cases h with
  | arcRole arcRole => simp [bind, arcRole]
  | linkRole arcRole linkRole => simp [bind, arcRole, linkRole]
  | source arcRole linkRole source => simp [bind, arcRole, linkRole, source]
  | target arcRole linkRole source target => simp [bind, arcRole, linkRole, source, target]

theorem fit_or_unfit (arc : Arc) (source target : Fragment) (link : ExtendedLink) :
    Fit arc source target link ∨ ∃ flaw, Unfit arc source target link flaw := by
  by_cases arcRole : arc.role = ""
  · exact .inr ⟨_, .arcRole arcRole⟩
  by_cases linkRole : link.role = ""
  · exact .inr ⟨_, .linkRole arcRole linkRole⟩
  cases fromLocator : source.isLocator with
  | true => exact .inr ⟨_, .source arcRole linkRole fromLocator⟩
  | false => cases toLocator : target.isLocator with
    | true => exact .inr ⟨_, .target arcRole linkRole fromLocator toLocator⟩
    | false => exact .inl ⟨arcRole, linkRole, fromLocator, toLocator⟩

end Relationship

namespace Record

theorem use_ofRelationship (r : Relationship) (root : Bool) :
    (ofRelationship r root).use = r.arc.use := by
  have back : ∀ use : Arc.Use, (if use == .prohibited then Arc.Use.prohibited else .optional) = use
    | .optional => rfl
    | .prohibited => rfl
  exact back r.arc.use

theorem toArc_ofRelationship (r : Relationship) (root : Bool) :
    (ofRelationship r root).toArc = .ok r.arc := by
  unfold toArc
  rw [use_ofRelationship]
  simp only [ofRelationship, Arc.Order.ofText?_text]
  rfl

/-- A record stands for a relationship: its ends are found, and the arc and the link are those of
    the record. -/
structure Restores (catalogue : Catalogue) (record : Record) (r : Relationship) : Prop where
  source : catalogue.fragment? record.source = .ok (some r.source)
  target : catalogue.fragment? record.target = .ok (some r.target)
  arc : record.toArc = .ok r.arc
  link : record.toLink = r.link

end Record

namespace Analysis

/-- A catalogue has the fragments at both ends of a relationship. -/
def Loaded (catalogue : Catalogue) (r : Relationship) : Prop :=
  catalogue.fragment? r.source.index = .ok (some r.source) ∧
    catalogue.fragment? r.target.index = .ok (some r.target)

theorem Loaded.restores {catalogue : Catalogue} {r : Relationship} (h : Loaded catalogue r)
    (root : Bool) : (Record.ofRelationship r root).Restores catalogue r :=
  ⟨h.1, h.2, Record.toArc_ofRelationship r root, rfl⟩

/-- A memory remembers what the catalogue says. -/
def Faithful (catalogue : Catalogue) (memory : Memory) : Prop :=
  ∀ index fragment, memory.known[index]? = some fragment →
    catalogue.fragment? index = .ok (some fragment)

variable {catalogue : Catalogue} {memory : Memory}

theorem bind_of_eq_ok {α β : Type} {work : Recalling α} {next : α → Recalling β}
    {memory' : Memory} {answer : α} (h : work memory = .ok (answer, memory')) :
    (work >>= next) memory = next answer memory' := by
  change (work memory >>= fun done => next done.1 done.2) = _
  rw [h]
  rfl

theorem faithful_empty (calls : Nat) : Faithful catalogue ⟨calls, ∅⟩ := by
  intro index fragment found
  simp at found

theorem fetch_eq_ok (h : Faithful catalogue memory) {index : Index} {fragment : Fragment}
    (there : catalogue.fragment? index = .ok (some fragment)) :
    ∃ memory', fetch ⟨catalogue, .never⟩ index memory = .ok (fragment, memory') ∧
      Faithful catalogue memory' := by
  unfold fetch
  cases known : memory.known[index]? with
  | some other =>
      have same := h index other known
      rw [there] at same
      cases same
      exact ⟨memory, rfl, h⟩
  | none =>
      refine ⟨⟨memory.calls + 1, memory.known.insert index fragment⟩, ?_, ?_⟩
      · simp only [Outage.answer, Outage.never, there]
      · intro index' fragment' found
        rw [ExtTreeMap.getElem?_insert] at found
        split at found
        · rename_i here
          cases found
          rwa [← LawfulEqOrd.eq_of_compare here]
        · exact h index' fragment' found

theorem exists_restore (h : Faithful catalogue memory) {record : Record} {r : Relationship}
    (restores : record.Restores catalogue r) :
    ∃ memory', restore ⟨catalogue, .never⟩ record memory = .ok (r, memory') ∧
      Faithful catalogue memory' := by
  obtain ⟨between, first, faithful⟩ := fetch_eq_ok h restores.source
  obtain ⟨memory', second, faithful'⟩ := fetch_eq_ok faithful restores.target
  refine ⟨memory', ?_, faithful'⟩
  have third : (liftM record.toArc : Recalling Arc) memory' = .ok (r.arc, memory') := by
    rw [restores.arc]
    rfl
  calc
    restore ⟨catalogue, .never⟩ record memory = _ := bind_of_eq_ok first
    _ = _ := bind_of_eq_ok second
    _ = _ := bind_of_eq_ok third
    _ = .ok (r, memory') := by
      simp only [restores.link, r.bind_self]
      rfl

theorem exists_mapM_restore (h : Faithful catalogue memory) {records : List Record}
    {relationships : List Relationship}
    (restores : List.Forall₂ (Record.Restores catalogue) records relationships) :
    ∃ memory', records.mapM (restore ⟨catalogue, .never⟩) memory = .ok (relationships, memory') := by
  induction restores generalizing memory with
  | nil => exact ⟨memory, rfl⟩
  | cons first _ ih =>
      obtain ⟨between, restored, faithful⟩ := exists_restore h first
      obtain ⟨memory', run⟩ := ih faithful
      refine ⟨memory', ?_⟩
      rw [List.mapM_cons, bind_of_eq_ok restored, bind_of_eq_ok run]
      rfl

theorem recorded_of_restores {ledger : Ledger} {relationships : List Relationship} {query : Query}
    (mode : Mode)
    (restores : List.Forall₂ (Record.Restores catalogue) (ledger.select query) relationships) :
    (Analysis.mk ⟨catalogue, .never⟩ ledger mode).recorded query = .ok relationships := by
  obtain ⟨memory, run⟩ := exists_mapM_restore (faithful_empty 1) restores
  change ((ledger.select query).mapM (restore ⟨catalogue, .never⟩) ⟨1, ∅⟩ >>=
    fun done => pure done.1) = _
  rw [run]
  rfl

end Analysis

end XbrlNetworks
