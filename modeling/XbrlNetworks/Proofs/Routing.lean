import XbrlNetworks.Proofs.Collections

/-! # Relationships find their networks

A collection splits what it is given by base set: each of its networks follows
the part of the log that belongs to it, and a base set without a network has
no part.
-/

namespace XbrlNetworks

def Log.ofBaseSet (log : Log) (baseSet : BaseSet) : Log :=
  log.filter fun r => decide (r.baseSet = baseSet)

theorem Log.ofBaseSet_append (log : Log) (r : Relationship) (baseSet : BaseSet) :
    ofBaseSet (log ++ [r]) baseSet =
      if r.baseSet = baseSet then log.ofBaseSet baseSet ++ [r] else log.ofBaseSet baseSet := by
  by_cases own : r.baseSet = baseSet
  · simp [ofBaseSet, List.filter_append, own]
  · simp [ofBaseSet, List.filter_append, own]

namespace Collection

variable {collection : Collection} {log : Log}

/-- Each network keeps what the log says of its base set, and no other base set is in the log. -/
structure Follows (collection : Collection) (log : Log) : Prop where
  networks : ∀ baseSet network, collection.network? baseSet = some network →
    network.baseSet = baseSet ∧ network.Follows (log.ofBaseSet baseSet)
  missing : ∀ baseSet, collection.network? baseSet = none → log.ofBaseSet baseSet = []

theorem Follows.coherent (h : collection.Follows log) : collection.Coherent :=
  fun baseSet network found => (h.networks baseSet network found).2.coherent

theorem follows_empty : empty.Follows [] where
  networks := by
    intro baseSet network found
    rw [network?_empty] at found
    cases found
  missing := fun _ _ => rfl

theorem Follows.getD_openFor (h : collection.Follows log) (r : Relationship) :
    ((collection.network? r.baseSet).getD (.openFor r)).baseSet = r.baseSet ∧
      ((collection.network? r.baseSet).getD (.openFor r)).Follows (log.ofBaseSet r.baseSet) := by
  cases found : collection.network? r.baseSet with
  | none =>
      rw [h.missing r.baseSet found]
      exact ⟨rfl, Network.follows_nil ⟨rfl, rfl, rfl, rfl⟩⟩
  | some network => exact h.networks r.baseSet network found

theorem Follows.insert (h : collection.Follows log) (r : Relationship) :
    ∃ next, collection.insert r = .ok (next, !(log.ofBaseSet r.baseSet).repeats r) ∧
      next.Follows (log ++ [r]) := by
  obtain ⟨own, follows⟩ := h.getD_openFor r
  obtain ⟨network, inserted, same, followsMore⟩ := follows.insert own.symm
  have base : network.baseSet = r.baseSet := same.trans own
  refine ⟨collection.put network, ?_, ?_, ?_⟩
  · simp only [Collection.insert, inserted]
    rfl
  · intro baseSet other found
    rw [network?_put, base] at found
    rw [Log.ofBaseSet_append]
    split at found
    · rename_i here
      cases found
      rw [if_pos here, ← here]
      exact ⟨base, followsMore⟩
    · rename_i elsewhere
      rw [if_neg elsewhere]
      exact h.networks baseSet other found
  · intro baseSet nothing
    rw [network?_put, base] at nothing
    rw [Log.ofBaseSet_append]
    split at nothing
    · cases nothing
    · rename_i elsewhere
      rw [if_neg elsewhere]
      exact h.missing baseSet nothing

/-- What every relationship is accepted by and preserves holds, with the count, of a whole run. -/
theorem exists_insertAll (Holds : Collection → Log → Nat → Prop)
    (step : ∀ collection log added r, Holds collection log added →
      ∃ next isNew, collection.insert r = .ok (next, isNew) ∧
        Holds next (log ++ [r]) (added + isNew.toNat))
    (h : Holds collection log 0) (relationships : Log) :
    ∃ last added, collection.insertAll relationships = .ok (last, added) ∧
      Holds last (log ++ relationships) added := by
  unfold Collection.insertAll
  -- The run goes on with any count as it starts with zero.
  generalize 0 = added at h ⊢
  induction relationships generalizing collection log added with
  | nil => exact ⟨collection, added, rfl, by rwa [List.append_nil]⟩
  | cons r rest ih =>
      obtain ⟨next, isNew, inserted, holds⟩ := step collection log added r h
      obtain ⟨last, total, run, holdsAll⟩ := ih _ holds
      refine ⟨last, total, ?_, by rwa [List.append_assoc] at holdsAll⟩
      rw [List.foldlM_cons]
      simp only [inserted]
      exact run

theorem Follows.insertAll (h : collection.Follows log) (relationships : Log) :
    ∃ last added, collection.insertAll relationships = .ok (last, added) ∧
      last.Follows (log ++ relationships) := by
  refine exists_insertAll (fun collection log _ => collection.Follows log)
    (fun collection log added r follows => ?_) h relationships
  obtain ⟨next, inserted, followsNext⟩ := follows.insert r
  exact ⟨next, _, inserted, followsNext⟩

end Collection

end XbrlNetworks
