import XbrlNetworks.Proofs.Answers
import XbrlNetworks.Proofs.Representation

/-! # A network refines its log

However many relationships are added to an empty network, its answers are
those that can be read off the plain list of what was offered.
-/

namespace XbrlNetworks.Network

/-- Adds relationships in order and tells of each whether it was new. -/
def insertEach (network : Network) : List Relationship → Except Failure (Network × List Bool)
  | [] => .ok (network, [])
  | r :: rest =>
    match network.insert r with
    | .error failure => .error failure
    | .ok (next, isNew) =>
      (next.insertEach rest).map fun (last, answers) => (last, isNew :: answers)

variable {network : Network}

/-- A run of insertions makes the log longer by as much, and each answer is the one that the log
    gave at its time. -/
theorem Follows.insertEach {log relationships : Log} (h : network.Follows log)
    (own : ∀ r ∈ relationships, r.baseSet = network.baseSet) :
    ∃ last answers, network.insertEach relationships = .ok (last, answers) ∧
      last.Follows (log ++ relationships) ∧ answers.length = relationships.length ∧
      ∀ earlier r later, relationships = earlier ++ r :: later →
        answers[earlier.length]? = some (!(log ++ earlier).repeats r) := by
  induction relationships generalizing network log with
  | nil => exact ⟨network, [], rfl, by rwa [List.append_nil], rfl, by simp⟩
  | cons first rest ih =>
      obtain ⟨next, inserted, same, follows⟩ := h.insert (own first List.mem_cons_self)
      have ownRest : ∀ r ∈ rest, r.baseSet = next.baseSet := by
        intro r member
        rw [same, own r (List.mem_cons_of_mem _ member)]
      obtain ⟨last, answers, run, followsAll, length, answered⟩ := ih follows ownRest
      refine ⟨last, (!log.repeats first) :: answers, ?_, ?_, ?_, ?_⟩
      · simp only [Network.insertEach, inserted, run]
        rfl
      · rwa [List.append_assoc] at followsAll
      · simp [length]
      · intro earlier r later split
        cases earlier with
        | nil =>
            cases split
            simp
        | cons first' earlier =>
            rw [List.cons_append, List.cons.injEq] at split
            obtain ⟨rfl, split⟩ := split
            simpa using answered earlier r later split

/-- What is added to an empty network is answered from the log of it. -/
theorem insertEach_refines_log {baseSet : BaseSet} {relationships : Log}
    (opened : Network.new baseSet = .ok network)
    (own : ∀ r ∈ relationships, r.baseSet = baseSet) :
    ∃ last answers, network.insertEach relationships = .ok (last, answers) ∧
      answers.length = relationships.length ∧
      (∀ earlier r later, relationships = earlier ++ r :: later →
        answers[earlier.length]? = some (!Log.repeats earlier r)) ∧
      last.size = (relationships.map Relationship.identity).dedup.length ∧
      (∀ source, last.outgoing source =
        (Log.leaving relationships source).mergeSort Relationship.le) ∧
      ∀ target, last.incoming target = Log.entering relationships target := by
  obtain ⟨follows, same⟩ := follows_new opened
  have own' : ∀ r ∈ relationships, r.baseSet = network.baseSet := by rwa [same]
  obtain ⟨last, answers, run, followsAll, length, answered⟩ := follows.insertEach own'
  exact ⟨last, answers, run, length, answered, followsAll.size, followsAll.outgoing_eq,
    followsAll.incoming_eq⟩

/-- An arc that is offered twice is refused the second time. -/
theorem insertEach_of_repeated_sample : ∃ last answers,
    (openFor (.sample "x" "s" "t" .optional)).insertEach
      [.sample "x" "s" "t" .optional, .sample "x" "s" "t" .prohibited] = .ok (last, answers) ∧
    answers[1]? = some false := by
  let p := Relationship.sample "x" "s" "t" .optional
  let q := Relationship.sample "x" "s" "t" .prohibited
  have opened : Network.new ⟨"A", "L"⟩ = .ok (openFor p) := rfl
  have own : ∀ r ∈ [p, q], r.baseSet = ⟨"A", "L"⟩ := by decide
  obtain ⟨last, answers, run, _, answered, _⟩ := insertEach_refines_log opened own
  exact ⟨last, answers, run, answered [p] q [] rfl⟩

end XbrlNetworks.Network
