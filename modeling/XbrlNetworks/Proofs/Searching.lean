import XbrlNetworks.Proofs.Duality
import XbrlNetworks.Proofs.Reach

/-! # The search as a loop

What can be reached from a fragment can also be searched for by a loop that marks a
fragment as seen as soon as it comes to it and opens the latest of those that it has
not opened yet.  Whatever the cycles, every fragment that can be reached is opened
just once, so the loop ends, and it has then seen what the search lists.
-/

namespace XbrlNetworks

/-- A search on its way. -/
structure Search where
  seen : List Index
  /-- Those of them that are still to be opened, the latest first -/
  pending : List Index

namespace Search

def start (root : Index) : Search := ⟨[root], [root]⟩

/-- Comes to a fragment; one that has not been seen yet is to be opened. -/
def see (search : Search) (index : Index) : Search :=
  if search.seen.contains index then search
  else ⟨index :: search.seen, index :: search.pending⟩

/-- Opens the latest pending fragment and comes to all its children; nothing when none is
    pending. -/
def next? (network : Network) (search : Search) : Option Search :=
  match search.pending with
  | [] => none
  | index :: rest => some ((network.children index).foldl see ⟨search.seen, rest⟩)

/-- A search ends after some steps, with some fragments seen. -/
inductive Ends (network : Network) : Search → Nat → List Index → Prop where
  | done {search : Search} : search.next? network = none → Ends network search 0 search.seen
  | step {search rest : Search} {steps : Nat} {seen : List Index} :
    search.next? network = some rest → Ends network rest steps seen →
      Ends network search (steps + 1) seen

theorem exists_foldl_see {search : Search} (nodup : search.seen.Nodup) (indexes : List Index) :
    ∃ new, indexes.foldl see search = ⟨new ++ search.seen, new ++ search.pending⟩ ∧
      (new ++ search.seen).Nodup ∧ new ⊆ indexes ∧ indexes ⊆ new ++ search.seen := by
  induction indexes generalizing search with
  | nil => exact ⟨[], rfl, nodup, List.Subset.refl _, List.nil_subset _⟩
  | cons first rest ih =>
      rw [List.foldl_cons]
      by_cases old : first ∈ search.seen
      · have same : search.see first = search := by simp [see, old]
        obtain ⟨new, run, nodup', fresh, covers⟩ := ih nodup
        refine ⟨new, by rw [same, run], nodup', List.subset_cons_of_subset _ fresh, ?_⟩
        exact List.cons_subset.mpr ⟨List.mem_append_right _ old, covers⟩
      · have grown : search.see first = ⟨first :: search.seen, first :: search.pending⟩ := by
          simp [see, old]
        have nodup : (search.see first).seen.Nodup := by
          rw [grown]
          exact List.nodup_cons.mpr ⟨old, nodup⟩
        obtain ⟨new, run, nodup', fresh, covers⟩ := ih nodup
        rw [grown] at run nodup' covers
        refine ⟨new ++ [first], by simp [grown, run], by simpa using nodup', ?_, ?_⟩
        · exact List.append_subset.mpr
            ⟨List.subset_cons_of_subset _ fresh,
              List.cons_subset.mpr ⟨List.mem_cons_self, List.nil_subset _⟩⟩
        · rw [List.append_assoc, List.singleton_append]
          exact List.cons_subset.mpr ⟨List.mem_append_right _ List.mem_cons_self, covers⟩

/-- What holds all along a search: what is pending has been seen, what has been seen can be
    reached, and of all that has been opened the children have been seen. -/
structure Sound (network : Network) (root : Index) (search : Search) : Prop where
  nodup : search.seen.Nodup
  started : root ∈ search.seen
  waiting : ∀ index ∈ search.pending, index ∈ search.seen
  reached : ∀ index ∈ search.seen, network.Reaches root index
  closed : ∀ index ∈ search.seen, index ∈ search.pending ∨
    ∀ child ∈ network.children index, child ∈ search.seen

variable {network : Network} {log : Log} {root index : Index} {search : Search} {rest : List Index}

theorem sound_start (network : Network) (root : Index) : (start root).Sound network root where
  nodup := List.nodup_singleton root
  started := List.mem_singleton_self root
  waiting := fun _ member => member
  reached := fun _ member => List.mem_singleton.mp member ▸ .refl
  closed := fun _ member => .inl member

/-- One step sees some more fragments, opens one and leaves the search sound. -/
theorem Sound.exists_next (h : search.Sound network root)
    (pending : search.pending = index :: rest) :
    ∃ new, search.next? network = some ⟨new ++ search.seen, new ++ rest⟩ ∧
      Sound network root ⟨new ++ search.seen, new ++ rest⟩ := by
  let popped : Search := ⟨search.seen, rest⟩
  have nodup : popped.seen.Nodup := h.nodup
  obtain ⟨new, run, nodup, fresh, covers⟩ := exists_foldl_see nodup (network.children index)
  have opened : network.Reaches root index :=
    h.reached index (h.waiting index (pending ▸ List.mem_cons_self))
  refine ⟨new, ?_, nodup, List.mem_append_right _ h.started, ?_, ?_, ?_⟩
  · simp only [next?, pending]
    exact congrArg some run
  · intro other member
    rcases List.mem_append.mp member with inNew | inRest
    · exact List.mem_append_left _ inNew
    · have waits := h.waiting other (pending ▸ List.mem_cons_of_mem _ inRest)
      exact List.mem_append_right _ waits
  · intro other member
    rcases List.mem_append.mp member with inNew | inSeen
    · exact opened.tail (fresh inNew)
    · exact h.reached other inSeen
  · intro other member
    rcases List.mem_append.mp member with inNew | inSeen
    · exact .inl (List.mem_append_left _ inNew)
    · rcases h.closed other inSeen with waits | closed
      · rw [pending] at waits
        rcases List.mem_cons.mp waits with rfl | inRest
        · exact .inr fun child isChild => covers isChild
        · exact .inl (List.mem_append_right _ inRest)
      · exact .inr fun child isChild => List.mem_append_right _ (closed child isChild)

theorem Sound.subset_reachableFrom (h : network.Follows log) (sound : search.Sound network root) :
    search.seen ⊆ network.reachableFrom root :=
  fun index member => h.mem_reachableFrom.mpr (sound.reached index member)

theorem Sound.length_le (h : network.Follows log) (sound : search.Sound network root) :
    search.seen.length ≤ (network.reachableFrom root).length :=
  (List.subperm_of_subset sound.nodup (sound.subset_reachableFrom h)).length_le

theorem Sound.perm_reachableFrom (h : network.Follows log) (sound : search.Sound network root)
    (idle : search.pending = []) : search.seen.Perm (network.reachableFrom root) := by
  refine (List.perm_ext_iff_of_nodup sound.nodup (network.nodup_reachableFrom root)).mpr
    fun index => ⟨fun member => sound.subset_reachableFrom h member, fun member => ?_⟩
  have reaches := h.mem_reachableFrom.mp member
  -- Along the chain everything is seen, because the fragment before has been opened.
  induction reaches with
  | refl => exact sound.started
  | tail before leads ih =>
      rcases sound.closed _ (ih (h.mem_reachableFrom.mpr before)) with waits | closed
      · rw [idle] at waits
        cases waits
      · exact closed _ leads

/-- A search takes one step for each fragment that is pending or still to be seen. -/
theorem Sound.exists_ends (h : network.Follows log) (sound : search.Sound network root)
    {steps : Nat} (left : search.pending.length +
      ((network.reachableFrom root).length - search.seen.length) = steps) :
    ∃ seen, search.Ends network steps seen ∧ seen.Perm (network.reachableFrom root) := by
  induction steps generalizing search with
  | zero =>
      have idle : search.pending = [] := List.length_eq_zero_iff.mp (by omega)
      exact ⟨search.seen, .done (by simp only [next?, idle]), sound.perm_reachableFrom h idle⟩
  | succ steps ih =>
      cases pending : search.pending with
      | nil =>
          have same := (sound.perm_reachableFrom h pending).length_eq
          rw [pending, List.length_nil] at left
          omega
      | cons index rest =>
          -- What is newly seen is pending too, so only the opened fragment makes a difference.
          obtain ⟨new, next, sound'⟩ := sound.exists_next pending
          have bound := sound'.length_le h
          simp only [pending, List.length_cons] at left
          simp only [List.length_append] at bound
          have left' : (new ++ rest).length + ((network.reachableFrom root).length -
              (new ++ search.seen).length) = steps := by
            simp only [List.length_append]
            omega
          obtain ⟨seen, ends, same⟩ := ih sound' left'
          exact ⟨seen, .step next ends, same⟩

end Search

namespace Network

variable {network : Network} {log : Log} {source target : Index}

theorem Follows.reaches_iff (h : network.Follows log) : network.Reaches source target ↔
    Relation.ReflTransGen network.Connects source target := by
  have same : network.Leads = network.Connects := by
    funext source target
    exact propext h.mem_map_outgoing
  rw [Reaches, same]

/-- From every fragment the search ends, after one step for each fragment that it finds, and what
    it finds is the fragment itself and all that chains of effective relationships lead to, each
    once. -/
theorem Reachable.search_ends (h : network.Reachable) (root : Index) :
    ∃ seen, (Search.start root).Ends network (network.reachableFrom root).length seen ∧
      seen.Perm (network.reachableFrom root) ∧ (network.reachableFrom root).Nodup ∧
      ∀ index, index ∈ network.reachableFrom root ↔
        Relation.ReflTransGen network.Connects root index := by
  obtain ⟨log, follows⟩ := h.follows
  have sound := Search.sound_start network root
  have left : (Search.start root).pending.length + ((network.reachableFrom root).length -
      (Search.start root).seen.length) = (network.reachableFrom root).length := by
    have bound := sound.length_le follows
    simp only [Search.start, List.length_singleton] at bound ⊢
    omega
  obtain ⟨seen, ends, same⟩ := sound.exists_ends follows left
  refine ⟨seen, ends, same, network.nodup_reachableFrom root, fun index => ?_⟩
  rw [follows.mem_reachableFrom, follows.reaches_iff]

/-- Two parallel relationships, one that leads back and one that leads back to its own source keep
    a search among two fragments, and the way to a third one is prohibited. -/
theorem search_ends_of_cycle : ∃ network seen, Network.Reachable network ∧
    (Search.start "s").Ends network 2 seen ∧ seen.Perm ["s", "t"] ∧
    Relation.ReflTransGen network.Connects "s" "t" ∧
      ¬ Relation.ReflTransGen network.Connects "s" "u" := by
  let first := Relationship.sample "v" "s" "t" .optional
  let parallel : Relationship := { Relationship.sample "w" "s" "t" .optional with
    arc := Arc.plain "w" "A" "k"
    hasArcRole := by simp [Arc.plain] }
  let back := Relationship.sample "x" "t" "s" .optional
  let loop := Relationship.sample "y" "t" "t" .optional
  let ban := Relationship.sample "z" "t" "u" .prohibited
  let pair := ((openFor first).opened first).opened parallel
  let cycle := pair.opened back
  let looped := cycle.opened loop
  let network := looped.opened ban
  have paired : pair.Reachable :=
    ((reachable_openFor first).opened rfl (by decide +kernel)).opened rfl (by decide +kernel)
  have cyclic : cycle.Reachable := paired.opened rfl (by decide +kernel)
  have inLoop : looped.Reachable := cyclic.opened rfl (by decide +kernel)
  have reached : network.Reachable := inLoop.opened rfl (by decide +kernel)
  have found : network.reachableFrom "s" = ["s", "t"] := by decide +kernel
  obtain ⟨seen, ends, same, _, chains⟩ := Reachable.search_ends reached "s"
  rw [found] at ends same chains
  exact ⟨network, seen, reached, ends, same, (chains "t").mp (by decide),
    fun chain => absurd ((chains "u").mpr chain) (by decide)⟩

end Network

end XbrlNetworks
