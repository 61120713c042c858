import XbrlNetworks.Json.Network
import XbrlNetworks.Proofs.Filling
import XbrlNetworks.Proofs.Insertion

/-! # Reachable networks

A network comes about empty, by insertions, by filling and by being read back.
All of these boil down to insertions into an empty network, so every reachable
network follows a log.
-/

namespace XbrlNetworks

/-- Networks that can come about.  A refused insertion and a failed filling are no exception:
    the former leaves the network as it is and the latter leaves what has been filled so far. -/
inductive Network.Reachable : Network → Prop where
  | new {baseSet : BaseSet} {network : Network} :
    Network.new baseSet = .ok network → Reachable network
  | insert {network next : Network} {r : Relationship} {isNew : Bool} :
    Reachable network → network.insert r = .ok (next, isNew) → Reachable next
  | fill {network : Network} (connection : Connection) (limit : TimeLimit) (calls : Nat) :
    Reachable network → Reachable (network.fill connection limit calls).network
  | ofJson {json : Json} {network : Network} :
    Network.ofJson json = .ok network → Reachable network

section Succeeding

variable {ε α β : Type}

theorem exists_of_bind_eq_ok {first : Except ε α} {second : α → Except ε β} {answer : β}
    (h : (first >>= second) = .ok answer) :
    ∃ middle, first = .ok middle ∧ second middle = .ok answer := by
  cases first with
  | error failure => cases h
  | ok middle => exact ⟨middle, rfl, h⟩

theorem exists_of_map_eq_ok {work : Except ε α} {f : α → β} {answer : β}
    (h : work.map f = .ok answer) : ∃ middle, work = .ok middle ∧ f middle = answer := by
  cases work with
  | error failure => cases h
  | ok middle => exact ⟨middle, rfl, Except.ok.inj h⟩

theorem Json.of_obey {value : Except Failure α} {answer : α} (h : obey value = .ok answer) :
    value = .ok answer := by
  cases value with
  | error failure => cases h
  | ok value =>
      cases h
      rfl

end Succeeding

namespace Network

variable {network next : Network} {r : Relationship} {isNew : Bool}

theorem exists_restore_of_ofJson {json : Json} (h : ofJson json = .ok network) :
    ∃ snapshot : Snapshot, snapshot.restore = .ok network := by
  obtain ⟨fields, _, h⟩ := exists_of_bind_eq_ok h
  obtain ⟨arcRole?, _, h⟩ := exists_of_bind_eq_ok h
  obtain ⟨linkRole?, _, h⟩ := exists_of_bind_eq_ok h
  obtain ⟨relationships?, _, h⟩ := exists_of_bind_eq_ok h
  obtain ⟨_, _, h⟩ := exists_of_bind_eq_ok h
  obtain ⟨arcRole, _, h⟩ := exists_of_bind_eq_ok h
  obtain ⟨linkRole, _, h⟩ := exists_of_bind_eq_ok h
  obtain ⟨relationships, _, h⟩ := exists_of_bind_eq_ok h
  exact ⟨⟨⟨arcRole, linkRole⟩, relationships⟩, Json.of_obey h⟩

theorem exists_of_restore_eq_ok {snapshot : Snapshot} (h : snapshot.restore = .ok network) :
    ∃ empty, Network.new snapshot.baseSet = .ok empty ∧
      empty.insertAll snapshot.relationships = .ok network := by
  unfold Snapshot.restore at h
  cases opened : Network.new snapshot.baseSet with
  | error flaw =>
      rw [opened] at h
      cases h
  | ok empty =>
      rw [opened] at h
      exact ⟨empty, rfl, h⟩

theorem baseSet_eq_of_insert (h : network.insert r = .ok (next, isNew)) :
    r.baseSet = network.baseSet := by
  by_contra other
  simp [insert, other] at h

theorem new_eq_ok {baseSet : BaseSet} (h : Network.new baseSet = .ok network) :
    network.baseSet = baseSet ∧ network.buckets = #[] ∧ network.fragments = ∅ ∧
      network.bySource = ∅ ∧ network.byTarget = ∅ := by
  unfold Network.new at h
  split at h
  · cases h
  · split at h
    · cases h
    · cases h
      exact ⟨rfl, rfl, rfl, rfl, rfl⟩

theorem follows_new {baseSet : BaseSet} (h : Network.new baseSet = .ok network) :
    network.Follows [] ∧ network.baseSet = baseSet :=
  ⟨follows_nil (new_eq_ok h).2, (new_eq_ok h).1⟩

theorem Follows.insert_ok {log : Log} (h : network.Follows log)
    (inserted : network.insert r = .ok (next, isNew)) :
    next.Follows (log ++ [r]) ∧ next.baseSet = network.baseSet ∧ isNew = !log.repeats r := by
  obtain ⟨next', inserted', same, follows⟩ := h.insert (baseSet_eq_of_insert inserted)
  rw [inserted] at inserted'
  cases inserted'
  exact ⟨follows, same, rfl⟩

theorem Follows.grows {log : Log} (h : network.Follows log) (grown : network.Grows next) :
    (∃ rest, next.Follows (log ++ rest)) ∧ next.baseSet = network.baseSet := by
  induction grown with
  | refl => exact ⟨⟨[], by rwa [List.append_nil]⟩, rfl⟩
  | insert _ inserted ih =>
      obtain ⟨⟨rest, follows⟩, same⟩ := ih
      obtain ⟨follows, same', _⟩ := follows.insert_ok inserted
      exact ⟨⟨rest ++ [_], by rwa [← List.append_assoc]⟩, same'.trans same⟩

theorem exists_of_insertAll_cons {rest : Log} {last : Network}
    (h : network.insertAll (r :: rest) = .ok last) :
    ∃ next isNew, network.insert r = .ok (next, isNew) ∧ next.insertAll rest = .ok last := by
  rw [insertAll, List.foldlM_cons] at h
  obtain ⟨next, first, run⟩ := exists_of_bind_eq_ok h
  obtain ⟨answer, inserted, rfl⟩ := exists_of_map_eq_ok first
  exact ⟨answer.1, answer.2, inserted, run⟩

theorem grows_insertAll {relationships : List Relationship}
    (h : network.insertAll relationships = .ok next) : network.Grows next := by
  induction relationships generalizing network with
  | nil =>
      cases h
      exact .refl
  | cons r rest ih =>
      obtain ⟨middle, _, inserted, run⟩ := exists_of_insertAll_cons h
      exact (Grows.insert .refl inserted).trans (ih run)

theorem Reachable.insertAll {relationships : Log} (h : network.Reachable)
    (run : network.insertAll relationships = .ok next) : next.Reachable := by
  induction relationships generalizing network with
  | nil =>
      cases run
      exact h
  | cons r rest ih =>
      obtain ⟨middle, _, inserted, run⟩ := exists_of_insertAll_cons run
      exact ih (h.insert inserted) run

theorem insertAll_append {relationships later : Log} :
    network.insertAll (relationships ++ later) =
      (network.insertAll relationships).bind fun next => next.insertAll later :=
  List.foldlM_append

theorem Follows.insertAll_ok {log relationships : Log} (h : network.Follows log)
    (inserted : network.insertAll relationships = .ok next) :
    next.Follows (log ++ relationships) := by
  induction relationships generalizing network log with
  | nil =>
      cases inserted
      rwa [List.append_nil]
  | cons r rest ih =>
      obtain ⟨middle, _, first, run⟩ := exists_of_insertAll_cons inserted
      simpa using ih (h.insert_ok first).1 run

/-- A reachable network is an empty one with relationships added. -/
theorem Reachable.grown (h : network.Reachable) :
    ∃ empty, Network.new network.baseSet = .ok empty ∧ empty.Grows network := by
  have keeps : ∀ {network next : Network} {empty : Network},
      Network.new network.baseSet = .ok empty → empty.Grows network → network.Grows next →
      ∃ empty, Network.new next.baseSet = .ok empty ∧ empty.Grows next := by
    intro network next empty opened before after
    obtain ⟨follows, same⟩ := follows_new opened
    refine ⟨empty, ?_, before.trans after⟩
    rwa [(follows.grows (before.trans after)).2, same]
  induction h with
  | new opened => exact keeps (by rwa [(follows_new opened).2]) .refl .refl
  | insert _ inserted ih =>
      obtain ⟨empty, opened, before⟩ := ih
      exact keeps opened before (.insert .refl inserted)
  | fill connection limit calls _ ih =>
      obtain ⟨empty, opened, before⟩ := ih
      exact keeps opened before (fill_grows _ connection limit calls)
  | ofJson read =>
      obtain ⟨snapshot, restored⟩ := exists_restore_of_ofJson read
      obtain ⟨empty, opened, inserted⟩ := exists_of_restore_eq_ok restored
      exact keeps (by rwa [(follows_new opened).2]) .refl (grows_insertAll inserted)

theorem Reachable.follows (h : network.Reachable) : ∃ log, network.Follows log := by
  obtain ⟨empty, opened, grown⟩ := h.grown
  obtain ⟨rest, follows⟩ := ((follows_new opened).1.grows grown).1
  exact ⟨rest, follows⟩

theorem Reachable.coherent (h : network.Reachable) : network.Coherent := by
  obtain ⟨log, follows⟩ := h.follows
  exact follows.coherent

theorem new_baseSet (r : Relationship) : Network.new r.baseSet = .ok (openFor r) := by
  have link : r.baseSet.linkRole ≠ "" := r.hasLinkRole
  have arc : r.baseSet.arcRole ≠ "" := r.hasArcRole
  simp only [Network.new, link, arc, dite_false]
  rfl

theorem reachable_openFor (r : Relationship) : (openFor r).Reachable :=
  .new (new_baseSet r)

theorem Reachable.opened (h : network.Reachable) (own : r.baseSet = network.baseSet)
    (unknown : network.byTarget.slot? r.target.index ⟨r.key, r.source.index⟩ = none) :
    (network.opened r).Reachable := by
  have inserted : network.insert r = .ok (network.opened r, true) := by
    simp only [Network.insert, own, ne_eq, not_true_eq_false, if_false, unknown]
    rfl
  exact h.insert inserted

end Network

end XbrlNetworks
