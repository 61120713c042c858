import XbrlNetworks.Proofs.Traversal

/-! # What an accepted tree covers

A network passes as a tree when its one root reaches as many fragments as its
effective relationships have at their ends.  As a rule these are the same
fragments, and then the walk carries every effective relationship once.  The
exception is a root whose relationships are all prohibited: it reaches itself,
and a single relationship that leads back to its own source makes up the number.
-/

namespace XbrlNetworks.Network

open Std

variable {network : Network} {log : Log} {root : Index} {fragment : Fragment}

/-- The counts that are compared before a network passes as a tree. -/
structure Accepted (network : Network) (root : Index) : Prop where
  roots : network.roots = [root]
  unshared : ∀ target ∈ network.targets, (network.incoming target).length ≤ 1
  counted : (network.reachableFrom root).length = network.connected.length

theorem treeRoot_eq_ok (found : network.treeRoot = .ok fragment) :
    ∃ root, network.roots = [root] ∧ network.fragments[root]? = some fragment ∧
      (∀ target ∈ network.targets, (network.incoming target).length ≤ 1) ∧
      (network.reachableFrom root).length = network.connected.length := by
  unfold treeRoot at found
  split at found
  · rename_i root only
    cases shared : network.targets.find? fun index => 1 < (network.incoming index).length with
    | some child =>
        rw [shared] at found
        cases found
    | none =>
        rw [shared] at found
        cases kept : network.fragments[root]? with
        | none =>
            rw [kept] at found
            cases found
        | some fragment' =>
            rw [kept] at found
            by_cases counted : (network.reachableFrom root).length = network.connected.length
            · simp only [counted, ne_eq, not_true_eq_false, if_false] at found
              cases found
              refine ⟨root, only, kept, ?_, counted⟩
              intro target member
              simpa using List.find?_eq_none.mp shared target member
            · simp only [counted, ne_eq, not_false_eq_true, if_true] at found
              cases found
  · cases found

theorem Coherent.accepted (h : network.Coherent) (found : network.treeRoot = .ok fragment) :
    network.Accepted fragment.index := by
  obtain ⟨root, only, kept, unshared, counted⟩ := treeRoot_eq_ok found
  obtain ⟨rfl, _⟩ := h.kept root fragment kept
  exact ⟨only, unshared, counted⟩

theorem Follows.accepted_of_tree {walk : Traversal} (h : network.Follows log)
    (found : network.tree = .ok walk) :
    ∃ fragment, walk = ⟨network, some fragment, []⟩ ∧ network.Accepted fragment.index := by
  unfold tree at found
  cases root : network.treeRoot with
  | error obstacle =>
      rw [root] at found
      cases found
  | ok fragment =>
      rw [root] at found
      cases found
      exact ⟨fragment, rfl, h.coherent.accepted root⟩

theorem Accepted.rooted (h : network.Follows log) (accepted : network.Accepted root) :
    network.Rooted root := by
  constructor
  · intro r effective atRoot
    have listed : root ∈ network.roots := by simp [accepted.roots]
    have entered := h.mem_targets effective
    rw [atRoot, targets, ExtTreeMap.mem_keys, ← ExtTreeMap.contains_iff_mem] at entered
    simp [Network.roots, entered] at listed
  · intro r effective r' effective' same
    have bound := accepted.unshared _ (h.mem_targets effective)
    have entering := (h.mem_ends effective).2
    have entering' := (h.mem_ends effective').2
    rw [← same] at entering'
    cases row : network.incoming r.target.index with
    | nil => simp [row] at entering
    | cons only more =>
        have alone : more = [] := by
          simpa [row] using bound
        rw [row, alone, List.mem_singleton] at entering entering'
        rw [entering, entering']

theorem mem_connected_of_reaches (h : network.Follows log) (atEnd : root ∈ network.connected)
    {index : Index} (reaches : network.Reaches root index) : index ∈ network.connected := by
  cases reaches with
  | refl => exact atEnd
  | tail _ leads =>
      obtain ⟨r, effective, _, same⟩ := h.leads_iff.mp leads
      exact mem_connected.mpr ⟨r, effective, .inr same⟩

theorem Accepted.reaches_of_mem (h : network.Follows log) (accepted : network.Accepted root)
    (atEnd : root ∈ network.connected) {index : Index} (member : index ∈ network.connected) :
    network.Reaches root index := by
  have inside : network.reachableFrom root ⊆ network.connected := by
    intro index reached
    exact mem_connected_of_reaches h atEnd (h.mem_reachableFrom.mp reached)
  have same := (List.subperm_of_subset (network.nodup_reachableFrom root) inside).perm_of_length_le
    accepted.counted.ge
  exact h.mem_reachableFrom.mp (same.mem_iff.mpr member)

theorem Rooted.source_ne_target (h : network.Follows log) (rooted : network.Rooted root)
    {r : Relationship} (effective : r ∈ network.relationships)
    (reaches : network.Reaches root r.source.index) : r.source.index ≠ r.target.index := by
  have noLoop : ∀ index, network.Reaches root index → ∀ r ∈ network.relationships,
      r.source.index = index → r.target.index ≠ index := by
    intro index reaches
    -- A loop at a child would be the relationship that leads there, so one at its parent too.
    induction reaches with
    | refl => exact fun r effective _ => rooted.top r effective
    | tail _ leads ih =>
        obtain ⟨parent, isEffective, atSource, atTarget⟩ := h.leads_iff.mp leads
        intro r effective here loop
        have same := rooted.single r effective parent isEffective (loop.trans atTarget.symm)
        subst same
        exact ih r effective atSource (loop.trans (here.symm.trans atSource))
  exact fun loop => noLoop _ reaches r effective rfl loop.symm

/-- A root without effective relationships is alone, beside one loop. -/
theorem Accepted.loop_of_not_mem (h : network.Follows log) (accepted : network.Accepted root)
    (apart : root ∉ network.connected) :
    network.outgoing root = [] ∧
      ∃ r ∈ network.relationships, r.source.index = r.target.index := by
  have alone : network.outgoing root = [] := by
    apply List.eq_nil_iff_forall_not_mem.mpr
    intro r member
    obtain ⟨effective, atSource⟩ := h.mem_relationships_of_outgoing member
    exact apart (mem_connected.mpr ⟨r, effective, .inl atSource⟩)
  have reached : network.reachableFrom root = [root] := by
    have only : ∀ index, index ∈ network.reachableFrom root ↔ index ∈ [root] := by
      intro index
      rw [h.mem_reachableFrom, List.mem_singleton]
      constructor
      · intro reaches
        cases reaches.cases_head with
        | inl same => exact same.symm
        | inr leads =>
            obtain ⟨child, leads, _⟩ := leads
            simp [Leads, children, alone] at leads
      · rintro rfl
        exact .refl
    exact List.perm_singleton.mp ((List.perm_ext_iff_of_nodup (network.nodup_reachableFrom root)
      (List.nodup_singleton root)).mpr only)
  have counted := accepted.counted
  rw [reached, List.length_singleton] at counted
  obtain ⟨single, only⟩ := List.length_eq_one_iff.mp counted.symm
  obtain ⟨r, effective, _⟩ := mem_connected.mp (only ▸ List.mem_singleton_self single)
  have source := mem_connected.mpr ⟨r, effective, .inl rfl⟩
  have target := mem_connected.mpr ⟨r, effective, .inr rfl⟩
  rw [only, List.mem_singleton] at source target
  exact ⟨alone, r, effective, source.trans target.symm⟩

/-- The walk of an accepted tree carries different relationships.  They are the effective ones
    unless one of these leads back to its own source. -/
theorem carried_perm_relationships_iff {walk : Traversal} (h : network.Reachable)
    (found : network.tree = .ok walk) :
    ∃ visits, walk.Yields visits ∧ walk.visits = visits ∧ (Traversal.carried visits).Nodup ∧
      ((Traversal.carried visits).Perm network.relationships ↔
        ∀ r ∈ network.relationships, r.source.index ≠ r.target.index) := by
  obtain ⟨log, h⟩ := h.follows
  obtain ⟨fragment, rfl, accepted⟩ := h.accepted_of_tree found
  have rooted := accepted.rooted h
  obtain ⟨visits, yields, all, finished, idle⟩ := rooted.exists_yields h
  refine ⟨visits, yields, all, by simpa using finished.nodup, ?_⟩
  -- A root at the end of an effective relationship is counted on both sides.  If it is not, it is
  -- counted on one side only, and what makes up for it is a loop.
  by_cases atEnd : fragment.index ∈ network.connected
  · have reaches : ∀ r ∈ network.relationships, network.Reaches fragment.index r.source.index := by
      intro r effective
      exact accepted.reaches_of_mem h atEnd (mem_connected.mpr ⟨r, effective, .inl rfl⟩)
    apply iff_of_true (finished.perm_relationships h reaches)
    exact fun r effective => rooted.source_ne_target h effective (reaches r effective)
  · obtain ⟨alone, r, effective, loop⟩ := accepted.loop_of_not_mem h atEnd
    apply iff_of_false
    · intro same
      rw [idle alone] at same
      exact List.ne_nil_of_mem effective same.nil_eq.symm
    · exact fun different => different r effective loop

/-- A walk that carries none of the effective relationships of its network. -/
theorem carried_not_perm_of_loop : ∃ network walk visits, Network.Reachable network ∧
    network.tree = .ok walk ∧ walk.Yields visits ∧ Traversal.carried visits = [] ∧
      network.relationships = [.sample "y" "a" "a" .optional] := by
  let p := Relationship.sample "x" "r" "a" .prohibited
  let q := Relationship.sample "y" "a" "a" .optional
  let network := ((openFor p).opened p).opened q
  have reached : network.Reachable :=
    ((reachable_openFor p).opened rfl (by decide +kernel)).opened rfl (by decide +kernel)
  have root : network.treeRoot = .ok p.source := by decide +kernel
  have alone : network.outgoing p.source.index = [] := by decide +kernel
  refine ⟨network, ⟨network, some p.source, []⟩, [⟨p.source, none, 0⟩], reached, ?_, ?_, rfl, ?_⟩
  · simp only [tree, root]
  · exact .step rfl (.done (Traversal.next?_of_pending_nil rfl
      (by rw [Traversal.pending, Traversal.flatten_descend, alone]; rfl)))
  · decide +kernel

/-- A chain of two relationships is a tree, and its walk carries both. -/
theorem carried_perm_of_chain : ∃ network walk visits, Network.Reachable network ∧
    network.tree = .ok walk ∧ walk.Yields visits ∧ network.relationships.length = 2 ∧
      (Traversal.carried visits).Perm network.relationships := by
  let p := Relationship.sample "x" "r" "a" .optional
  let q := Relationship.sample "y" "a" "b" .optional
  let network := ((openFor p).opened p).opened q
  have reached : network.Reachable :=
    ((reachable_openFor p).opened rfl (by decide +kernel)).opened rfl (by decide +kernel)
  have root : network.treeRoot = .ok p.source := by decide +kernel
  have found : network.tree = .ok ⟨network, some p.source, []⟩ := by
    simp only [tree, root]
  have all : network.relationships = [q, p] := by decide +kernel
  obtain ⟨visits, yields, _, _, covers⟩ := carried_perm_relationships_iff reached found
  refine ⟨network, _, visits, reached, found, yields, by rw [all]; rfl, covers.mpr ?_⟩
  rw [all]
  decide

end XbrlNetworks.Network
