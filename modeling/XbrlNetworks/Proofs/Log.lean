import Mathlib.Data.List.Dedup
import XbrlNetworks.Bucket
import XbrlNetworks.Network.Perspective

/-! # Logs of relationships

A log is the plain list of the relationships that were offered to a network.
What a network answers can be read off its log without slots, perspectives or
buckets: filter the log, keep each arc once, and let the greatest priority win.
-/

namespace XbrlNetworks

/-- The bucket at an edge that leads out of a fragment. -/
def Edge.leaving (source : Index) (edge : Edge) : Bucket.Identity :=
  ⟨edge.key, source, edge.far⟩

def Edge.entering (target : Index) (edge : Edge) : Bucket.Identity :=
  ⟨edge.key, edge.far, target⟩

theorem Edge.leaving_injective {source source' : Index} {edge edge' : Edge}
    (h : edge.leaving source = edge'.leaving source') : source = source' ∧ edge = edge' := by
  cases edge
  cases edge'
  simp only [leaving, Bucket.Identity.mk.injEq] at h
  simp only [h, and_self]

theorem Edge.entering_injective {target target' : Index} {edge edge' : Edge}
    (h : edge.entering target = edge'.entering target') : target = target' ∧ edge = edge' := by
  cases edge
  cases edge'
  simp only [entering, Bucket.Identity.mk.injEq] at h
  simp only [h, and_self]

/-- Relationships in the order in which they were offered. -/
abbrev Log := List Relationship

namespace Log

/-- Keeps of each arc only the first relationship. -/
def firstOfArcs : Log → Log
  | [] => []
  | r :: rest => r :: (firstOfArcs rest).filter fun later => later.arc.index != r.arc.index

/-- The relationships of a log that compete in one bucket. -/
def competitors (log : Log) (identity : Bucket.Identity) : Log :=
  firstOfArcs (log.filter fun r => decide (r.identity = identity))

/-- Whether a log already has the arc of a relationship between the same ends and with the
    same key. -/
def repeats (log : Log) (r : Relationship) : Bool :=
  log.any fun earlier =>
    decide (earlier.identity = r.identity) && earlier.arc.index == r.arc.index

/-- The latest of the relationships with the greatest priority. -/
def winner? (log : Log) : Option Relationship :=
  (log.filter fun r => log.all fun other => decide (other.arc.priority ≤ r.arc.priority)).getLast?

/-- The winner among the competitors of a bucket, unless it prohibits. -/
def effective? (log : Log) (identity : Bucket.Identity) : Option Relationship :=
  (winner? (log.competitors identity)).filter fun r => !r.isProhibited

def ascendingEdges (edges : List Edge) : List Edge :=
  edges.dedup.mergeSort fun first second => (Edge.compare first second).isLE

/-- The effective relationships out of a fragment, in the order of key and target. -/
def leaving (log : Log) (source : Index) : List Relationship :=
  let here := log.filter fun r => r.source.index == source
  (ascendingEdges (here.map fun r => ⟨r.key, r.target.index⟩)).filterMap fun edge =>
    log.effective? (edge.leaving source)

def entering (log : Log) (target : Index) : List Relationship :=
  let here := log.filter fun r => r.target.index == target
  (ascendingEdges (here.map fun r => ⟨r.key, r.source.index⟩)).filterMap fun edge =>
    log.effective? (edge.entering target)

theorem mem_of_mem_firstOfArcs {log : Log} {r : Relationship} (h : r ∈ firstOfArcs log) :
    r ∈ log := by
  induction log with
  | nil => exact h
  | cons first rest ih =>
      rcases List.mem_cons.mp h with rfl | later
      · exact List.mem_cons_self
      · exact List.mem_cons_of_mem _ (ih (List.mem_of_mem_filter later))

theorem exists_mem_firstOfArcs {log : Log} {arc : Index} :
    (∃ r ∈ firstOfArcs log, r.arc.index = arc) ↔ ∃ r ∈ log, r.arc.index = arc := by
  constructor
  · rintro ⟨r, member, same⟩
    exact ⟨r, mem_of_mem_firstOfArcs member, same⟩
  · rintro ⟨r, member, same⟩
    induction log with
    | nil => simp at member
    | cons first rest ih =>
        by_cases atFirst : first.arc.index = arc
        · exact ⟨first, List.mem_cons_self, atFirst⟩
        · have inRest : r ∈ rest := by
            rcases List.mem_cons.mp member with rfl | inRest
            · exact absurd same atFirst
            · exact inRest
          obtain ⟨kept, keptMember, keptSame⟩ := ih inRest
          refine ⟨kept, List.mem_cons_of_mem _ (List.mem_filter.mpr ⟨keptMember, ?_⟩), keptSame⟩
          simpa [keptSame] using fun same => atFirst same.symm

theorem firstOfArcs_append (log : Log) (r : Relationship) :
    firstOfArcs (log ++ [r]) = firstOfArcs log ++
      if ∃ earlier ∈ log, earlier.arc.index = r.arc.index then [] else [r] := by
  induction log with
  | nil => simp [firstOfArcs]
  | cons first rest ih =>
      simp only [List.cons_append, firstOfArcs, ih, List.filter_append, List.exists_mem_cons_iff]
      by_cases atFirst : first.arc.index = r.arc.index
      · by_cases inRest : ∃ earlier ∈ rest, earlier.arc.index = r.arc.index
        · simp [atFirst, inRest]
        · simp [atFirst, inRest]
      · have differs : (r.arc.index != first.arc.index) = true := by
          simpa using fun same => atFirst same.symm
        by_cases inRest : ∃ earlier ∈ rest, earlier.arc.index = r.arc.index
        · simp [atFirst, inRest]
        · simp [atFirst, inRest, differs]

theorem exists_mem_competitors {log : Log} {identity : Bucket.Identity} {arc : Index} :
    (∃ r ∈ log.competitors identity, r.arc.index = arc) ↔
      ∃ r ∈ log, r.identity = identity ∧ r.arc.index = arc := by
  rw [competitors, exists_mem_firstOfArcs]
  simp only [List.mem_filter, decide_eq_true_eq, and_assoc]

theorem repeats_iff {log : Log} {r : Relationship} :
    log.repeats r = true ↔
      ∃ earlier ∈ log.competitors r.identity, earlier.arc.index = r.arc.index := by
  simp only [exists_mem_competitors, repeats, List.any_eq_true, Bool.and_eq_true,
    decide_eq_true_eq, beq_iff_eq]

theorem repeats_eq_false_of_unknown {log : Log} {r : Relationship}
    (unknown : ∀ other ∈ log, other.identity ≠ r.identity) : log.repeats r = false := by
  simp only [repeats, List.any_eq_false, Bool.and_eq_true, decide_eq_true_eq, not_and]
  exact fun earlier member same => absurd same (unknown earlier member)

theorem competitors_append_other {log : Log} {r : Relationship} {identity : Bucket.Identity}
    (h : r.identity ≠ identity) : competitors (log ++ [r]) identity = log.competitors identity := by
  simp [competitors, List.filter_append, h]

theorem competitors_append_self (log : Log) (r : Relationship) :
    competitors (log ++ [r]) r.identity =
      log.competitors r.identity ++ if log.repeats r then [] else [r] := by
  have split : (log ++ [r]).filter (fun other => decide (other.identity = r.identity)) =
      log.filter (fun other => decide (other.identity = r.identity)) ++ [r] := by
    simp [List.filter_append]
  rw [competitors, split, firstOfArcs_append]
  congr 1
  refine if_congr ?_ rfl rfl
  rw [repeats_iff, competitors, exists_mem_firstOfArcs]

theorem competitors_eq_nil_iff {log : Log} {identity : Bucket.Identity} :
    log.competitors identity = [] ↔ ∀ r ∈ log, r.identity ≠ identity := by
  constructor
  · intro none r member same
    have arc := exists_mem_competitors.mpr ⟨r, member, same, rfl⟩
    simp [none] at arc
  · intro different
    have none : log.filter (fun r => decide (r.identity = identity)) = [] := by
      simpa using different
    simp [competitors, none, firstOfArcs]

theorem mem_of_mem_competitors {log : Log} {identity : Bucket.Identity} {r : Relationship}
    (h : r ∈ log.competitors identity) : r ∈ log ∧ r.identity = identity := by
  simpa using mem_of_mem_firstOfArcs h

theorem mem_of_winner? {log : Log} {r : Relationship} (h : winner? log = some r) : r ∈ log :=
  List.mem_of_mem_filter (List.mem_of_getLast? h)

theorem winner?_eq_of_forall_eq {log : Log} {r : Relationship} (member : r ∈ log)
    (same : ∀ other ∈ log, other = r) : winner? log = some r := by
  have won : r ∈ log.filter fun r => log.all fun other =>
      decide (other.arc.priority ≤ r.arc.priority) := by
    refine List.mem_filter.mpr ⟨member, List.all_eq_true.mpr ?_⟩
    intro other otherMember
    rw [same other otherMember]
    simp
  cases last : winner? log with
  | none =>
      rw [winner?, List.getLast?_eq_none_iff] at last
      simp [last] at won
  | some other => rw [same other (mem_of_winner? last)]

theorem mem_of_effective? {log : Log} {identity : Bucket.Identity} {r : Relationship}
    (h : log.effective? identity = some r) : r ∈ log ∧ r.identity = identity := by
  obtain ⟨won, _⟩ := Option.filter_eq_some_iff.mp h
  exact mem_of_mem_competitors (mem_of_winner? won)

theorem effective?_eq_of_unique {log : Log} {identity : Bucket.Identity} {r : Relationship}
    (member : r ∈ log) (here : r.identity = identity) (asserts : r.isProhibited = false)
    (unique : ∀ other ∈ log, other.identity = identity → other = r) :
    log.effective? identity = some r := by
  have alone : ∀ other ∈ log.competitors identity, other = r := by
    intro other competes
    obtain ⟨otherMember, same⟩ := mem_of_mem_competitors competes
    exact unique other otherMember same
  have competes : r ∈ log.competitors identity := by
    obtain ⟨other, otherCompetes, _⟩ := exists_mem_competitors.mpr ⟨r, member, here, rfl⟩
    exact alone other otherCompetes ▸ otherCompetes
  rw [effective?, winner?_eq_of_forall_eq competes alone]
  simp [asserts]

end Log

end XbrlNetworks
