import XbrlNetworks.Json.Network
import XbrlNetworks.Proofs.Restoring

/-! # What is written in JSON is read back

Each value of a network is read from what it is written as, field by field and
in the order in which the reader asks for them.
-/

namespace XbrlNetworks

namespace Json

variable {α β : Type} {fields : Fields} {name : String} {read : Json → Read α}

theorem Read.andThen {first : Read α} {second : α → Read β} {middle : α} {answer : Read β}
    (h : first = .ok middle) (h' : second middle = answer) : (first >>= second) = answer := by
  subst h
  exact h'

theorem Fields.get?_eq_some {json : Json} {value : α}
    (there : fields.members.lookup name = some json) (reads : read json = .ok value) :
    fields.get? name read = .ok (some value) := by
  simp only [get?, there, reads]
  rfl

theorem Fields.get?_eq_none (absent : fields.members.lookup name = none) :
    fields.get? name read = .ok none := by
  simp only [get?, absent]

theorem readList_array {write : α → Json} (h : ∀ item, read (write item) = .ok item)
    (items : List α) : readList read (.array (items.map write)) = .ok items := by
  change (items.map write).mapM read = .ok items
  induction items with
  | nil => rfl
  | cons item items ih =>
      rw [List.map_cons, List.mapM_cons]
      exact Read.andThen (h item) (Read.andThen ih rfl)

theorem readPriority_ofPriority (priority : Int32) :
    readPriority (ofPriority priority) = .ok priority := by
  simp only [readPriority, ofPriority, Arc.priorityOfInt?_toInt]

end Json

open Json

theorem Fragment.Kind.ofJson_toJson (kind : Kind) : ofJson kind.toJson = .ok kind := by
  cases kind <;> rfl

theorem Fragment.ofJson_toJson (fragment : Fragment) : ofJson fragment.toJson = .ok fragment := by
  obtain ⟨index, kind, name⟩ := fragment
  cases name with
  | none =>
      refine Read.andThen rfl ?_
      refine Read.andThen (Fields.get?_eq_some rfl rfl) ?_
      refine Read.andThen (Fields.get?_eq_some rfl kind.ofJson_toJson) ?_
      refine Read.andThen (Fields.get?_eq_none rfl) ?_
      rfl
  | some name =>
      refine Read.andThen rfl ?_
      refine Read.andThen (Fields.get?_eq_some rfl rfl) ?_
      refine Read.andThen (Fields.get?_eq_some rfl kind.ofJson_toJson) ?_
      refine Read.andThen (Fields.get?_eq_some rfl rfl) ?_
      rfl

theorem ExtendedLink.ofJson_toJson (link : ExtendedLink) : ofJson link.toJson = .ok link :=
  rfl

theorem Arc.Order.ofJson_toJson (order : Arc.Order) : ofJson order.toJson = .ok order := by
  refine Read.andThen rfl ?_
  rw [Arc.Order.ofText?_text]
  rfl

theorem Arc.Use.ofJson_toJson (use : Arc.Use) : ofJson use.toJson = .ok use := by
  cases use <;> rfl

theorem Arc.ofJson_toJson (arc : Arc) : ofJson arc.toJson = .ok arc := by
  refine Read.andThen rfl ?_
  refine Read.andThen (Fields.get?_eq_some rfl rfl) ?_
  refine Read.andThen (Fields.get?_eq_some rfl rfl) ?_
  refine Read.andThen (Fields.get?_eq_some rfl arc.order.ofJson_toJson) ?_
  refine Read.andThen (Fields.get?_eq_some rfl (readPriority_ofPriority arc.priority)) ?_
  refine Read.andThen (Fields.get?_eq_some rfl rfl) ?_
  refine Read.andThen (Fields.get?_eq_some rfl arc.use.ofJson_toJson) ?_
  rfl

theorem Relationship.ofJson_toJson (r : Relationship) : ofJson r.toJson = .ok r := by
  refine Read.andThen rfl ?_
  refine Read.andThen (Fields.get?_eq_some rfl r.arc.ofJson_toJson) ?_
  refine Read.andThen (Fields.get?_eq_some rfl r.link.ofJson_toJson) ?_
  refine Read.andThen (Fields.get?_eq_some rfl r.source.ofJson_toJson) ?_
  refine Read.andThen (Fields.get?_eq_some rfl r.target.ofJson_toJson) ?_
  -- Then the four fields are there, and together they keep the rules of construction.
  refine Read.andThen rfl ?_
  refine Read.andThen rfl ?_
  refine Read.andThen rfl ?_
  refine Read.andThen rfl ?_
  refine Read.andThen rfl ?_
  rw [r.bind_self]
  rfl

theorem BaseSet.ofJson_toJson (set : BaseSet) : ofJson set.toJson = .ok set :=
  rfl

theorem Record.ofJson_toJson (record : Record) : ofJson record.toJson = .ok record := by
  refine Read.andThen rfl ?_
  refine Read.andThen (Fields.get?_eq_some rfl rfl) ?_
  refine Read.andThen (Fields.get?_eq_some rfl rfl) ?_
  refine Read.andThen (Fields.get?_eq_some rfl rfl) ?_
  refine Read.andThen (Fields.get?_eq_some rfl rfl) ?_
  refine Read.andThen (Fields.get?_eq_some rfl rfl) ?_
  refine Read.andThen (Fields.get?_eq_some rfl (readPriority_ofPriority record.priority)) ?_
  -- The fields after the priority are read as they are.
  rfl

theorem Analysis.Mode.ofJson_toJson (mode : Analysis.Mode) : ofJson mode.toJson = .ok mode := by
  cases mode <;> rfl

theorem Network.ofJson_toJson (network : Network) :
    ofJson network.toJson = obey network.snapshot.restore := by
  refine Read.andThen rfl ?_
  refine Read.andThen (Fields.get?_eq_some rfl rfl) ?_
  refine Read.andThen (Fields.get?_eq_some rfl rfl) ?_
  refine Read.andThen (Fields.get?_eq_some rfl
    (readList_array Relationship.ofJson_toJson network.snapshot.relationships)) ?_
  rfl

end XbrlNetworks
