import XbrlNetworks.Proofs.Codec
import XbrlNetworks.Proofs.Reachable

/-! # What JSON can be read as

Every value is read back from what it is written as, so writing what has been
read and reading it again changes nothing, however the first text spelled it.
A relationship is read by reading its four parts and binding them, and nothing
but what keeps the rules of construction comes out of that.
-/

namespace XbrlNetworks

open Json

namespace Json

variable {α : Type}

/-- What is written is read back, and what has been read is not changed by being written. -/
structure Faithful (write : α → Json) (read : Json → Read α) : Prop where
  back : ∀ value, read (write value) = .ok value
  settled : ∀ json value, read json = .ok value → read (write value) = read json

theorem Faithful.of_back {write : α → Json} {read : Json → Read α}
    (back : ∀ value, read (write value) = .ok value) : Faithful write read :=
  ⟨back, fun _ value reads => (back value).trans reads.symm⟩

theorem of_need {value? : Option α} {value : α} (h : need value? = .ok value) :
    value? = some value := by
  cases value? with
  | none => cases h
  | some found =>
      cases h
      rfl

end Json

theorem Arc.Order.ofText?_eq_some_iff {raw : String} {order : Arc.Order} :
    Arc.Order.ofText? raw = some order ↔
      order.text = trim raw ∧ Binary64.ofText? (trim raw) = some order.value := by
  unfold Arc.Order.ofText?
  split
  · rename_i value reads
    constructor
    · intro same
      cases same
      exact ⟨rfl, reads⟩
    · exact fun same => congrArg some (Arc.Order.eq_of_text_eq same.1.symm)
  · rename_i unread
    simp only [unread, reduceCtorEq, and_false]

theorem Arc.Order.ofJson_eq_ok_iff {json : Json} {order : Arc.Order} :
    Arc.Order.ofJson json = .ok order ↔
      ∃ raw, json = .string raw ∧ order.text = trim raw ∧
        Binary64.ofText? (trim raw) = some order.value := by
  simp only [← Arc.Order.ofText?_eq_some_iff]
  constructor
  · intro read
    obtain ⟨raw, isText, rest⟩ := exists_of_bind_eq_ok read
    cases json with
    | string _ =>
        cases isText
        cases found : Arc.Order.ofText? raw with
        | none =>
            rw [found] at rest
            cases rest
        | some other =>
            rw [found] at rest
            cases rest
            exact ⟨raw, rfl, found⟩
    | null | bool _ | number _ _ | array _ | object _ => cases isText
  · rintro ⟨raw, rfl, found⟩
    refine Read.andThen rfl ?_
    rw [found]
    rfl

namespace Relationship

variable {json : Json} {arc : Arc} {source target : Fragment} {link : ExtendedLink}

/-- The four parts that are read for a relationship, before they are bound. -/
inductive Drafted : Json → Arc → Fragment → Fragment → ExtendedLink → Prop where
  | intro {json : Json} {fields : Fields} {arc : Arc} {source target : Fragment}
    {link : ExtendedLink} :
    json.fields ["arc", "source", "target", "link"] = .ok fields →
      fields.finish = .ok () →
      fields.get? "arc" Arc.ofJson = .ok (some arc) →
      fields.get? "link" ExtendedLink.ofJson = .ok (some link) →
      fields.get? "source" Fragment.ofJson = .ok (some source) →
      fields.get? "target" Fragment.ofJson = .ok (some target) →
      Drafted json arc source target link

theorem Drafted.ofJson_eq (h : Drafted json arc source target link) :
    Relationship.ofJson json =
      obey ((Relationship.bind arc source target link).mapError .validation) := by
  obtain ⟨read, finished, hasArc, hasLink, hasSource, hasTarget⟩ := h
  refine Read.andThen read ?_
  refine Read.andThen hasArc ?_
  refine Read.andThen hasLink ?_
  refine Read.andThen hasSource ?_
  refine Read.andThen hasTarget ?_
  refine Read.andThen finished ?_
  refine Read.andThen rfl (Read.andThen rfl (Read.andThen rfl (Read.andThen rfl ?_)))
  cases Relationship.bind arc source target link with
  | ok r => rfl
  | error flaw => rfl

theorem drafted_of_ofJson {r : Relationship} (h : Relationship.ofJson json = .ok r) :
    Drafted json r.arc r.source r.target r.link := by
  obtain ⟨fields, read, h⟩ := exists_of_bind_eq_ok h
  obtain ⟨arc?, hasArc, h⟩ := exists_of_bind_eq_ok h
  obtain ⟨link?, hasLink, h⟩ := exists_of_bind_eq_ok h
  obtain ⟨source?, hasSource, h⟩ := exists_of_bind_eq_ok h
  obtain ⟨target?, hasTarget, h⟩ := exists_of_bind_eq_ok h
  obtain ⟨_, finished, h⟩ := exists_of_bind_eq_ok h
  -- From here on all four have to be there.
  obtain ⟨arc, needArc, h⟩ := exists_of_bind_eq_ok h
  obtain ⟨source, needSource, h⟩ := exists_of_bind_eq_ok h
  obtain ⟨target, needTarget, h⟩ := exists_of_bind_eq_ok h
  obtain ⟨link, needLink, bound⟩ := exists_of_bind_eq_ok h
  obtain rfl := of_need needArc
  obtain rfl := of_need needSource
  obtain rfl := of_need needTarget
  obtain rfl := of_need needLink
  have drafted := Drafted.intro read finished hasArc hasLink hasSource hasTarget
  rcases fit_or_unfit arc source target link with fit | ⟨flaw, unfit⟩
  · rw [fit.bind_eq_ok] at bound
    cases bound
    exact drafted
  · rw [unfit.bind_eq_error] at bound
    cases bound

/-- Parts that have been read make up a relationship just when they keep the rules. -/
theorem Drafted.exists_ofJson_iff (h : Drafted json arc source target link) :
    (∃ r, Relationship.ofJson json = .ok r) ↔ Fit arc source target link := by
  rw [h.ofJson_eq]
  rcases fit_or_unfit arc source target link with fit | ⟨flaw, unfit⟩
  · exact iff_of_true ⟨_, by rw [fit.bind_eq_ok]; rfl⟩ fit
  · refine iff_of_false ?_ ?_
    · rw [unfit.bind_eq_error]
      rintro ⟨r, read⟩
      cases read
    · intro fit
      cases fit.bind_eq_ok.symm.trans unfit.bind_eq_error

end Relationship

namespace Json

/-- All values are read back from what they are written as.  Whatever a relationship is read from,
    it has both roles, resolved ends and an order that is finite and written without blanks; four
    parts that can be read are refused only if they break one of these rules. -/
theorem faithful_codecs :
    (Faithful Json.string readText ∧ Faithful Fragment.Kind.toJson Fragment.Kind.ofJson ∧
      Faithful Fragment.toJson Fragment.ofJson ∧
      Faithful ExtendedLink.toJson ExtendedLink.ofJson ∧
      Faithful Arc.Order.toJson Arc.Order.ofJson ∧ Faithful Arc.toJson Arc.ofJson ∧
      Faithful Relationship.toJson Relationship.ofJson ∧ Faithful BaseSet.toJson BaseSet.ofJson ∧
      Faithful Record.toJson Record.ofJson ∧
      Faithful Analysis.Mode.toJson Analysis.Mode.ofJson) ∧
    (∀ json r, Relationship.ofJson json = .ok r →
      Relationship.Fit r.arc r.source r.target r.link ∧
        trim r.arc.order.text = r.arc.order.text ∧
        Binary64.ofText? r.arc.order.text = some r.arc.order.value ∧
        r.arc.order.value.magnitude < unitsOutOfRange) ∧
    (∀ json arc source target link, Relationship.Drafted json arc source target link →
      ((∃ r, Relationship.ofJson json = .ok r) ↔ Relationship.Fit arc source target link)) ∧
    ∀ json order, Arc.Order.ofJson json = .ok order ↔
      ∃ raw, json = .string raw ∧ order.text = trim raw ∧
        Binary64.ofText? (trim raw) = some order.value := by
  refine ⟨⟨.of_back fun _ => rfl, .of_back Fragment.Kind.ofJson_toJson,
    .of_back Fragment.ofJson_toJson, .of_back ExtendedLink.ofJson_toJson,
    .of_back Arc.Order.ofJson_toJson, .of_back Arc.ofJson_toJson,
    .of_back Relationship.ofJson_toJson, .of_back BaseSet.ofJson_toJson,
    .of_back Record.ofJson_toJson, .of_back Analysis.Mode.ofJson_toJson⟩, ?_, ?_, ?_⟩
  · intro json r read
    have fit := (Relationship.drafted_of_ofJson read).exists_ofJson_iff.mp ⟨r, read⟩
    exact ⟨fit, r.arc.order.trim_text, r.arc.order.reads, r.arc.order.value.representable.1⟩
  · exact fun _ _ _ _ _ drafted => drafted.exists_ofJson_iff
  · exact fun _ _ => Arc.Order.ofJson_eq_ok_iff

/-- A relationship whose order has blanks around it, and that says nothing of priority and use, is
    settled once it has been read. -/
theorem faithful_codecs_of_sparse_arc : ∃ json r, Relationship.ofJson json = .ok r ∧
    r.arc.order.text = "2.50" ∧ trim r.arc.order.text = r.arc.order.text ∧
      Relationship.ofJson r.toJson = .ok r := by
  let json : Json := .object [
    ("arc", .object [("arcrole", .string "A"), ("index", .string "x"), ("order", .string " 2.50 "),
      ("semantic_key", .string "k")]),
    ("link", .object [("index", .string "link"), ("role", .string "L")]),
    ("source", .object [("index", .string "s"), ("kind", .string "fact"), ("name", .null)]),
    ("target", .object [("index", .string "t"), ("kind", .object [("label", .null)])])]
  have shown : (Relationship.ofJson json).map (fun r => r.arc.order.text) = .ok "2.50" := by
    decide +kernel
  obtain ⟨r, read, text⟩ := exists_of_map_eq_ok shown
  obtain ⟨⟨_, _, _, _, _, _, relationships, _⟩, sound, _⟩ := faithful_codecs
  exact ⟨json, r, read, text, (sound json r read).2.1,
    (relationships.settled json r read).trans read⟩

end Json

end XbrlNetworks
