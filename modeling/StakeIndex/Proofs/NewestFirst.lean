import StakeIndex.Proofs.Resolution

/-!
The contracts of a role, the newest first. The list of a role holds the contracts that were registered last under its
versions and begins with the newest one. Of several roles, the lists stand under the addresses of their newest
contracts; where two roles have their newest contract at one address, only the list of the role that is asked for
last stands there, so no role is lost exactly if these addresses are different.
-/
namespace StakeIndex

/-- A contract is the last one that was registered under its role and version. -/
def Binding.InForce (b : Binding) (bindings : List Binding) : Prop :=
  bindings.reverse.find? (·.key = b.key) = some b

namespace Binding

/-- The contract of the later version; of one version, the second one. -/
instance : Max Binding := ⟨fun b c => if compare b.version c.version = .gt then b else c⟩

variable {b c greatest : Binding}

theorem max_cases (b c : Binding) : max b c = b ∨ max b c = c := by
  change (if _ then b else c) = b ∨ (if _ then b else c) = c
  split
  · exact .inl rfl
  · exact .inr rfl

theorem max_eq_left (below : c = b ∨ compare c.version b.version = .lt) : max b c = b := by
  obtain rfl | less := below
  · exact (max_cases c c).elim id id
  · exact if_pos (Std.OrientedCmp.gt_of_lt less)

theorem max_eq_right (below : b = c ∨ compare b.version c.version = .lt) : max b c = c := by
  obtain rfl | less := below
  · exact (max_cases b b).elim id id
  · have notGreater : ¬compare b.version c.version = .gt := by simp [less]
    exact if_neg notGreater

/-- The contract of a later version than all others is the greatest one, wherever it stands. -/
theorem foldl_max {list : List Binding} (member : greatest ∈ b :: list)
    (below : ∀ c ∈ b :: list, c = greatest ∨ compare c.version greatest.version = .lt) :
    list.foldl max b = greatest := by
  induction list generalizing b with
  | nil => exact (List.mem_singleton.1 member).symm
  | cons c rest ih =>
    obtain ⟨first, second, others⟩ : (_ ∨ _) ∧ (_ ∨ _) ∧ _ := by simpa only [List.forall_mem_cons] using below
    refine ih ?_ (List.forall_mem_cons.2 ⟨?_, others⟩)
    · obtain rfl | rfl | later : greatest = b ∨ greatest = c ∨ greatest ∈ rest := by
        simpa only [List.mem_cons] using member
      · exact List.mem_cons.2 (.inl (max_eq_left second).symm)
      · exact List.mem_cons.2 (.inl (max_eq_right first).symm)
      · exact List.mem_cons_of_mem _ later
    · obtain same | same := max_cases b c
      · rwa [same]
      · rwa [same]

end Binding

namespace Registry

variable {registry : Registry} {bindings : List Binding} {b : Binding} {name : ContractName}

theorem find?_ofBindings (bindings : List Binding) (key : ContractName × Version) :
    (ofBindings bindings).byVersion.find? key = bindings.reverse.find? (·.key = key) := by
  rw [byVersion_ofBindings, Table.find?_insertAll]
  exact Option.or_none ..

theorem key_of_find? {key : ContractName × Version} (found : (ofBindings bindings).byVersion.find? key = some b) :
    b.key = key := by
  rw [find?_ofBindings] at found
  simpa using List.find?_some found

theorem mem_versionsOf_iff :
    b ∈ (ofBindings bindings).versionsOf name ↔ b.name = name ∧ b.InForce bindings := by
  rw [versionsOf, List.mem_reverse, Table.mem_values_iff]
  simp only [Table.find?_filter, Option.filter_eq_some_iff, beq_iff_eq]
  constructor
  · rintro ⟨key, found, role⟩
    obtain rfl := key_of_find? found
    exact ⟨role, (find?_ofBindings ..).symm.trans found⟩
  · rintro ⟨role, inForce⟩
    exact ⟨b.key, (find?_ofBindings ..).trans inForce, role⟩

/-- The list of a role strictly descends. -/
theorem versionsOf_descends : ((ofBindings bindings).versionsOf name).Pairwise
    fun b c => compare c.version b.version = .lt := by
  rw [versionsOf, List.pairwise_reverse, Table.values, List.pairwise_map]
  refine ((ofBindings bindings).byVersion.filter fun key _ => key.1 == name).sorted.imp_of_mem ?_
  intro e f member member' less
  have keyed {e : (ContractName × Version) × Binding}
      (member : e ∈ ((ofBindings bindings).byVersion.filter fun key _ => key.1 == name).entries) :
      e.1 = (name, e.2.version) := by
    obtain ⟨stored, role⟩ := List.mem_filter.1 member
    have key := key_of_find? (Table.find?_eq_some_iff.2 stored)
    rw [← key] at role ⊢
    exact congrArg (·, e.2.version) (eq_of_beq role)
  rw [keyed member, keyed member'] at less
  rwa [Table.compare_subject] at less

/-- The first of a role's list is its newest contract. -/
theorem head?_versionsOf (registry : Registry) (name : ContractName) :
    (registry.versionsOf name).head? = registry.newest? name := by
  rw [versionsOf, List.head?_reverse, Table.values, List.getLast?_map]
  rfl

section Visits

variable {visited : List Binding} (all : visited.Perm (ofBindings bindings).byVersion.values)

include all

theorem versionsOf_perm :
    ((ofBindings bindings).versionsOf name).Perm (visited.filter (·.name == name)) := by
  have keyed : ((ofBindings bindings).byVersion.filter fun key _ => key.1 == name).values =
      (ofBindings bindings).byVersion.values.filter (·.name == name) := by
    rw [Table.values, Table.values, List.filter_map]
    congr 1
    refine List.filter_congr fun e member => ?_
    rw [← key_of_find? (Table.find?_eq_some_iff.2 member)]
    rfl
  rw [versionsOf, keyed]
  exact (List.reverse_perm _).trans (all.symm.filter _)

/-- The contracts of a role are listed as if they were sorted by their versions, in whatever order all contracts are
visited. -/
theorem versionsOf_eq_mergeSort :
    (ofBindings bindings).versionsOf name =
      (visited.filter (·.name == name)).mergeSort fun b c => (compare c.version b.version).isLE := by
  have order : ((ofBindings bindings).versionsOf name).Perm
      ((visited.filter (·.name == name)).mergeSort fun b c => (compare c.version b.version).isLE) :=
    (versionsOf_perm all).trans (List.mergeSort_perm _ _).symm
  refine order.eq_of_pairwise (fun b c member member' above below => ?_)
    (versionsOf_descends.imp fun less => ?_) (List.pairwise_mergeSort ?_ ?_ _)
  · obtain ⟨role, inForce⟩ := mem_versionsOf_iff.1 member
    obtain ⟨role', inForce'⟩ := mem_versionsOf_iff.1 (order.mem_iff.2 member')
    have same : b.key = c.key := Prod.ext (role.trans role'.symm) (Version.eq_of_isLE below above)
    rw [Binding.InForce, same] at inForce
    exact Option.some.inj (inForce.symm.trans inForce')
  · simp [less]
  · exact fun _ _ _ first second => Std.TransCmp.isLE_trans second first
  · intro b c
    have swapped : compare b.version c.version = (compare c.version b.version).swap := Std.OrientedCmp.eq_swap
    rw [swapped]
    cases compare c.version b.version <;> rfl

/-- The newest contract of a role is the greatest one that is met on the way through all contracts. -/
theorem newest?_eq_max? :
    (ofBindings bindings).newest? name = (visited.filter (·.name == name)).max? := by
  have order : ((ofBindings bindings).versionsOf name).Perm _ := versionsOf_perm all
  have descends : ((ofBindings bindings).versionsOf name).Pairwise _ := versionsOf_descends
  rw [← head?_versionsOf]
  generalize (ofBindings bindings).versionsOf name = listed at order descends
  generalize visited.filter (·.name == name) = found at order
  cases found with
  | nil => rw [order.eq_nil, List.head?_nil, List.max?_nil]
  | cons first rest =>
    cases listed with
    | nil => exact absurd order.symm.eq_nil (List.cons_ne_nil _ _)
    | cons newest older =>
      have older_below := (List.pairwise_cons.1 descends).1
      refine congrArg some (Binding.foldl_max (order.mem_iff.1 List.mem_cons_self) fun c member => ?_).symm
      exact (List.mem_cons.1 (order.mem_iff.2 member)).imp_right (older_below c)

end Visits

theorem newestFirst_concat_of_nil {names : List ContractName} (none : registry.versionsOf name = []) :
    registry.newestFirst (names ++ [name]) = registry.newestFirst names := by
  rw [newestFirst, List.foldl_concat, none]
  rfl

theorem newestFirst_concat_of_cons {names : List ContractName} {newest : Binding} {older : List Binding}
    (listed : registry.versionsOf name = newest :: older) :
    registry.newestFirst (names ++ [name]) =
      (registry.newestFirst names).insert newest.address (newest :: older) := by
  rw [newestFirst, List.foldl_concat, listed]
  rfl

theorem find?_newestFirst (registry : Registry) (names : List ContractName) (address : Address) :
    (registry.newestFirst names).find? address =
      (names.reverse.find? fun name => (registry.newest? name).map (·.address) = some address).map
        registry.versionsOf := by
  induction names using List.reverseRecOn with
  | nil => rfl
  | append_singleton names name ih =>
    rw [List.reverse_concat, List.find?_cons, ← head?_versionsOf]
    cases listed : registry.versionsOf name with
    | nil =>
      rw [newestFirst_concat_of_nil listed, ih]
      simp
    | cons newest older =>
      rw [newestFirst_concat_of_cons listed, Table.find?_insert, ih]
      by_cases here : address = newest.address
      · simp [here, listed]
      · simp [here, Ne.symm here]

/-- Under an address stands the list of the role that was asked for last of those with their newest contract there. -/
theorem find?_newestFirst_eq_some_iff {names : List ContractName} {address : Address} {list : List Binding} :
    (registry.newestFirst names).find? address = some list ↔
      ∃ before name after, names = before ++ name :: after ∧ list = registry.versionsOf name ∧
        (registry.newest? name).map (·.address) = some address ∧
        ∀ later ∈ after, (registry.newest? later).map (·.address) ≠ some address := by
  rw [find?_newestFirst, Option.map_eq_some_iff]
  simp only [List.find?_eq_some_iff_append, decide_eq_true_eq]
  constructor
  · rintro ⟨name, ⟨here, after, before, split, apart⟩, rfl⟩
    refine ⟨before.reverse, name, after.reverse, ?_, rfl, here, fun later member => ?_⟩
    · rw [← List.reverse_reverse names, split, List.reverse_append, List.reverse_cons, List.append_assoc]
      rfl
    · simpa using apart later (List.mem_reverse.1 member)
  · rintro ⟨before, name, after, rfl, rfl, here, apart⟩
    refine ⟨name, ⟨here, after.reverse, before.reverse, by simp, fun later member => ?_⟩, rfl⟩
    simpa using apart later (List.mem_reverse.1 member)

theorem name_of_newest? (newest : (ofBindings bindings).newest? name = some b) : b.name = name := by
  rw [← head?_versionsOf] at newest
  exact (mem_versionsOf_iff.1 (List.mem_of_mem_head? newest)).1

/-- The contracts of some roles, the newest first. The list of a role holds exactly its contracts in force, strictly
descends and begins with the newest one. Under an address stands the list of the last of the roles that have their
newest contract there, and nothing else. So each role that has a contract keeps its list exactly if the newest
contracts of any two of them are at different addresses. -/
theorem newest_first_iff (bindings : List Binding) (names : List ContractName) :
    let registry := ofBindings bindings
    let found := registry.newestFirst names
    (∀ name, (∀ b, b ∈ registry.versionsOf name ↔ b.name = name ∧ b.InForce bindings) ∧
      (registry.versionsOf name).Pairwise (fun b c => compare c.version b.version = .lt) ∧
      (registry.versionsOf name).head? = registry.newest? name) ∧
    (∀ address list, found.find? address = some list ↔
      ∃ before name after, names = before ++ name :: after ∧ list = registry.versionsOf name ∧
        (registry.newest? name).map (·.address) = some address ∧
        ∀ later ∈ after, (registry.newest? later).map (·.address) ≠ some address) ∧
    ((∀ name ∈ names, ∀ newest, registry.newest? name = some newest →
        found.find? newest.address = some (registry.versionsOf name)) ↔
      ∀ name ∈ names, ∀ other ∈ names, ∀ b c, registry.newest? name = some b →
        registry.newest? other = some c → b.address = c.address → name = other) := by
  intro registry found
  refine ⟨fun _ => ⟨fun _ => mem_versionsOf_iff, versionsOf_descends, head?_versionsOf ..⟩,
    fun _ _ => find?_newestFirst_eq_some_iff, ?_, ?_⟩
  · intro kept name asked other asked' b c newest newest' same
    have both : registry.versionsOf name = registry.versionsOf other := by
      have first := kept name asked b newest
      rw [same] at first
      exact Option.some.inj (first.symm.trans (kept other asked' c newest'))
    have head := congrArg List.head? both
    rw [head?_versionsOf, head?_versionsOf] at head
    exact (name_of_newest? newest).symm.trans (name_of_newest? (head.symm.trans newest))
  · intro apart name asked newest its
    -- The last role asked for that has its newest contract at the address is the role itself.
    have here : (registry.newest? name).map (·.address) = some newest.address := congrArg _ its
    obtain ⟨last, chosen⟩ : ∃ last, (names.reverse.find? fun name =>
        (registry.newest? name).map (·.address) = some newest.address) = some last :=
      Option.isSome_iff_exists.1 (List.find?_isSome.2 ⟨name, List.mem_reverse.2 asked, decide_eq_true here⟩)
    have among := List.mem_reverse.1 (List.mem_of_find?_eq_some chosen)
    have there : (registry.newest? last).map (·.address) = some newest.address := by
      simpa using List.find?_some chosen
    obtain ⟨c, its', same⟩ := Option.map_eq_some_iff.1 there
    obtain rfl := apart last among name asked c newest its' its same
    rw [find?_newestFirst, chosen, Option.map_some]

section Shared

/-- A contract of the nodes, or of the manager. -/
def sharedBinding (name : ContractName) (version : String) (address : Word) : Binding :=
  ⟨name, .read version, .ofWord address, ⟨[]⟩⟩

/-- Two versions of the nodes at two addresses, and the manager at a third one: both roles keep their lists. -/
theorem newest_first_apart :
    let registry := ofBindings
      [sharedBinding .nodes "1.9.0" 1, sharedBinding .nodes "1.10.0" 2, sharedBinding .manager "1.10.0" 3]
    let found := registry.newestFirst [.nodes, .manager]
    found.find? (.ofWord 2) = some [sharedBinding .nodes "1.10.0" 2, sharedBinding .nodes "1.9.0" 1] ∧
      found.find? (.ofWord 3) = some [sharedBinding .manager "1.10.0" 3] := by
  intro registry found
  obtain ⟨-, -, -, kept⟩ := newest_first_iff
    [sharedBinding .nodes "1.9.0" 1, sharedBinding .nodes "1.10.0" 2, sharedBinding .manager "1.10.0" 3]
    [.nodes, .manager]
  have apart : ∀ name ∈ [ContractName.nodes, .manager], ∀ other ∈ [ContractName.nodes, .manager], ∀ b c,
      registry.newest? name = some b → registry.newest? other = some c → b.address = c.address → name = other := by
    have nodes : registry.newest? .nodes = some (sharedBinding .nodes "1.10.0" 2) := rfl
    have manager : registry.newest? .manager = some (sharedBinding .manager "1.10.0" 3) := rfl
    intro name asked other asked' b c its its' same
    obtain rfl | rfl := List.mem_pair.1 asked <;> obtain rfl | rfl := List.mem_pair.1 asked'
    · rfl
    · cases nodes.symm.trans its
      cases manager.symm.trans its'
      exact absurd same (by decide)
    · cases manager.symm.trans its
      cases nodes.symm.trans its'
      exact absurd same (by decide)
    · rfl
  exact ⟨kept apart .nodes (by decide) _ rfl, kept apart .manager (by decide) _ rfl⟩

/-- The nodes moved to the address of the manager: their list is lost, older version and all. -/
theorem not_newest_first :
    let registry := ofBindings
      [sharedBinding .nodes "1.9.0" 1, sharedBinding .nodes "1.10.0" 2, sharedBinding .manager "1.10.0" 2]
    let found := registry.newestFirst [.nodes, .manager]
    registry.newest? .nodes = some (sharedBinding .nodes "1.10.0" 2) ∧
      registry.versionsOf .nodes = [sharedBinding .nodes "1.10.0" 2, sharedBinding .nodes "1.9.0" 1] ∧
      found.entries = [(.ofWord 2, [sharedBinding .manager "1.10.0" 2])] ∧
      ¬∀ name ∈ [ContractName.nodes, .manager], ∀ newest, registry.newest? name = some newest →
        found.find? newest.address = some (registry.versionsOf name) := by
  refine ⟨rfl, rfl, rfl, fun kept => ?_⟩
  have lost := congrArg (Option.map List.length) (kept .nodes (by decide) _ rfl)
  exact absurd lost (by decide)

end Shared

end Registry
end StakeIndex
