import Mathlib.Data.List.Dedup
import Mathlib.Data.List.Destutter
import Mathlib.Data.List.Induction
import StakeIndex.Proofs.Registration
import StakeIndex.Proofs.VersionOrder

/-!
Contracts and events found in a registry. Under a role and version stands the contract that was registered with them,
under an address the newest of those that are there, the first of them if several are, and under a selector the first
event that has it. Apart from events, the order in which contracts were registered is of no matter when no two of one
version share an address.
-/
namespace StakeIndex

namespace Table

variable {κ α : Type} [Ord κ] [Std.LawfulEqOrd κ]

theorem mem_keys_iff {t : Table κ α} {key : κ} : key ∈ t.keys ↔ ∃ a, t.find? key = some a := by
  simp only [keys, List.mem_map, Prod.exists, exists_and_right, exists_eq_right, find?_eq_some_iff]

variable [Std.TransOrd κ] [DecidableEq κ]

theorem mem_keys_insert {t : Table κ α} {key k : κ} {row : α} :
    k ∈ (t.insert key row).keys ↔ k = key ∨ k ∈ t.keys := by
  rw [mem_keys_iff, mem_keys_iff, find?_insert]
  by_cases same : k = key <;> simp [same]

theorem mem_keys_ofList {entries : List (κ × α)} {key : κ} :
    key ∈ (ofList entries).keys ↔ key ∈ entries.map (·.1) := by
  have inserted (t : Table κ α) : key ∈ (entries.foldl (fun t e => t.insert e.1 e.2) t).keys ↔
      key ∈ entries.map (·.1) ∨ key ∈ t.keys := by
    induction entries generalizing t with
    | nil => exact (or_iff_right List.not_mem_nil).symm
    | cons e rest ih =>
      rw [List.foldl_cons, ih, mem_keys_insert, List.map_cons, List.mem_cons]
      tauto
  exact (inserted ∅).trans (or_iff_left List.not_mem_nil)

end Table

namespace Address


theorem pairwise_mergeSort (list : List Address) : list.mergeSort.Pairwise (· ≤ ·) := by
  refine (List.pairwise_mergeSort ?_ ?_ list).imp of_decide_eq_true
  · exact fun _ _ _ first second =>
      decide_eq_true (Nat.le_trans (of_decide_eq_true first) (of_decide_eq_true second))
  · intro a b
    rw [Bool.or_eq_true, decide_eq_true_iff, decide_eq_true_iff]
    exact Nat.le_total a.toNat b.toNat

variable {ascending list : List Address}

/-- A strictly ascending list is what sorting makes of its members in any order. -/
theorem eq_mergeSort (sorted : ascending.Pairwise (· < ·)) (order : list.Perm ascending) :
    ascending = list.mergeSort :=
  (order.symm.trans (List.mergeSort_perm _ _).symm).eq_of_pairwise
    (fun _ _ _ _ less more => ext (Nat.le_antisymm less more)) (sorted.imp fun less => Nat.le_of_lt less)
    (pairwise_mergeSort list)

/-- If members are repeated, the sorted list without repetitions is the strictly ascending one. -/
theorem eq_destutter (sorted : ascending.Pairwise (· < ·)) (same : ∀ a, a ∈ ascending ↔ a ∈ list) :
    ascending = list.mergeSort.destutter (· ≠ ·) := by
  have antisymm : Std.Antisymm (α := Address) (· ≤ ·) := ⟨fun _ _ less more => ext (Nat.le_antisymm less more)⟩
  have below := pairwise_mergeSort list
  rw [below.destutter_eq_dedup]
  have members : ascending.Perm list.mergeSort.dedup := by
    refine (List.perm_ext_iff_of_nodup (sorted.imp fun less => ?_) (List.nodup_dedup _)).2 fun a => ?_
    · rintro rfl
      exact absurd less (Nat.lt_irrefl _)
    · rw [same, List.mem_dedup, List.mem_mergeSort]
  exact members.eq_of_pairwise (fun _ _ _ _ less more => ext (Nat.le_antisymm less more))
    (sorted.imp fun less => Nat.le_of_lt less) (below.sublist (List.dedup_sublist _))

end Address

namespace Binding

/-- The role and version under which a contract is registered. -/
def key (b : Binding) : ContractName × Version := (b.name, b.version)

/-- A contract is the one that counts at an address: none that was registered there is newer, and those that were
registered there before it are older. -/
def CountsAt (b : Binding) (address : Address) (bindings : List Binding) : Prop :=
  ∃ earlier later, bindings = earlier ++ b :: later ∧ b.address = address ∧
    (∀ c ∈ earlier, c.address = address → compare c.version b.version = .lt) ∧
    ∀ c ∈ later, c.address = address → (compare c.version b.version).isLE

variable {b c : Binding} {address : Address} {bindings bindings' : List Binding}

namespace CountsAt

theorem mem (counts : b.CountsAt address bindings) : b ∈ bindings := by
  obtain ⟨earlier, later, rfl, -⟩ := counts
  exact List.mem_append_right _ List.mem_cons_self

theorem at_address (counts : b.CountsAt address bindings) : b.address = address := by
  obtain ⟨_, _, -, same, -⟩ := counts
  exact same

theorem newest (counts : b.CountsAt address bindings) (member : c ∈ bindings) (same : c.address = address) :
    (compare c.version b.version).isLE := by
  obtain ⟨earlier, later, rfl, -, before, after⟩ := counts
  obtain member | member := List.mem_append.1 member
  · exact Ordering.isLE_of_eq_lt (before c member same)
  · obtain rfl | member := List.mem_cons.1 member
    · exact Std.ReflCmp.isLE_rfl
    · exact after c member same

theorem unique (first : b.CountsAt address bindings) (second : c.CountsAt address bindings) : b = c := by
  have apart {b c : Binding} {between : List Binding} {later later' : List Binding}
      (split : b :: later = between ++ c :: later') (old : b ∈ between → compare b.version c.version = .lt)
      (new : c ∈ later → (compare c.version b.version).isLE) : b = c := by
    cases between with
    | nil => exact (List.cons.inj split).1
    | cons d between =>
      obtain ⟨rfl, rest⟩ := List.cons.inj split
      have above := new (rest ▸ List.mem_append_right _ List.mem_cons_self)
      have below := Std.TransCmp.lt_of_lt_of_isLE (old List.mem_cons_self) above
      simp at below
  obtain ⟨earlier, later, rfl, here, before, after⟩ := first
  obtain ⟨earlier', later', split, here', before', after'⟩ := second
  obtain ⟨between, rfl, rest⟩ | ⟨between, rfl, rest⟩ := List.append_eq_append_iff.1 split
  · exact apart rest (fun member => before' b (List.mem_append_right _ member) here)
      fun member => after c member here'
  · exact (apart rest (fun member => before c (List.mem_append_right _ member) here')
      fun member => after' b member here).symm

/-- One more contract is registered that is at another address or not newer. -/
theorem concat (counts : b.CountsAt address bindings)
    (old : c.address = address → (compare c.version b.version).isLE) : b.CountsAt address (bindings ++ [c]) := by
  obtain ⟨earlier, later, rfl, here, before, after⟩ := counts
  refine ⟨earlier, later ++ [c], List.append_assoc .., here, before, ?_⟩
  exact List.forall_mem_append.2 ⟨after, List.forall_mem_singleton.2 old⟩

/-- One more contract is registered that is newer than all at its address. -/
theorem last (new : ∀ c ∈ bindings, c.address = b.address → compare c.version b.version = .lt) :
    b.CountsAt b.address (bindings ++ [b]) :=
  ⟨bindings, [], rfl, rfl, new, List.forall_mem_nil _⟩

end CountsAt
end Binding

namespace Registry

variable {registry : Registry} {bindings bindings' : List Binding} {b : Binding} {address : Address}

theorem atAddress?_insert_ne (other : b.address ≠ address) :
    (registry.insert b).atAddress? address = registry.atAddress? address := by
  have put : (registry.byAddress.insert b.address b).find? address = registry.byAddress.find? address :=
    Table.find?_insert_ne _ _ (Ne.symm other)
  change (addAddress registry.byAddress b).find? address = _
  unfold addAddress
  split
  · split
    · exact put
    · rfl
  · exact put

theorem atAddress?_insert_self : (registry.insert b).atAddress? b.address =
    some (match registry.atAddress? b.address with
      | some present => if compare present.version b.version = .lt then b else present
      | none => b) := by
  change (addAddress registry.byAddress b).find? b.address = _
  unfold addAddress atAddress?
  cases found : registry.byAddress.find? b.address with
  | none => exact Table.find?_insert_self ..
  | some present =>
    dsimp only
    split
    · exact Table.find?_insert_self ..
    · exact found

/-- What stands at an address counts there, or there is nothing at all. -/
theorem atAddress?_ofBindings (bindings : List Binding) (address : Address) :
    (∃ b, (ofBindings bindings).atAddress? address = some b ∧ b.CountsAt address bindings) ∨
      (ofBindings bindings).atAddress? address = none ∧ ∀ c ∈ bindings, c.address ≠ address := by
  induction bindings using List.reverseRecOn with
  | nil => exact .inr ⟨rfl, List.forall_mem_nil _⟩
  | append_singleton bindings c ih =>
    have inserted : ofBindings (bindings ++ [c]) = (ofBindings bindings).insert c := List.foldl_concat ..
    rw [inserted]
    by_cases here : c.address = address
    · subst here
      rw [atAddress?_insert_self]
      obtain ⟨present, found, counts⟩ | ⟨absent, apart⟩ := ih
      · rw [found]
        dsimp only
        split
        next newer =>
          refine .inl ⟨c, rfl, .last fun d member same => ?_⟩
          exact Std.TransCmp.lt_of_isLE_of_lt (counts.newest member same) newer
        next older =>
          exact .inl ⟨present, rfl, counts.concat fun _ => Version.isLE_of_not_lt older⟩
      · rw [absent]
        exact .inl ⟨c, rfl, .last fun d member same => absurd same (apart d member)⟩
    · rw [atAddress?_insert_ne here]
      obtain ⟨present, found, counts⟩ | ⟨absent, apart⟩ := ih
      · exact .inl ⟨present, found, counts.concat fun same => absurd same here⟩
      · exact .inr ⟨absent, List.forall_mem_append.2 ⟨apart, List.forall_mem_singleton.2 here⟩⟩

theorem atAddress?_eq_some_iff :
    (ofBindings bindings).atAddress? address = some b ↔ b.CountsAt address bindings := by
  obtain ⟨c, found, counts⟩ | ⟨absent, apart⟩ := atAddress?_ofBindings bindings address
  · rw [found, Option.some.injEq]
    exact ⟨fun same => same ▸ counts, counts.unique⟩
  · rw [absent]
    exact ⟨fun wrong => (nomatch wrong), fun counts => absurd counts.at_address (apart b counts.mem)⟩

theorem mem_addresses_iff : address ∈ (ofBindings bindings).addresses ↔ ∃ b ∈ bindings, b.address = address := by
  have resolved : address ∈ (ofBindings bindings).addresses ↔
      ∃ b, (ofBindings bindings).atAddress? address = some b := Table.mem_keys_iff
  rw [resolved]
  constructor
  · rintro ⟨b, found⟩
    have counts := atAddress?_eq_some_iff.1 found
    exact ⟨b, counts.mem, counts.at_address⟩
  · rintro ⟨b, member, here⟩
    obtain ⟨c, found, -⟩ | ⟨-, apart⟩ := atAddress?_ofBindings bindings address
    · exact ⟨c, found⟩
    · exact absurd here (apart b member)

/-- Which contract counts at an address does not depend on the order if no two of one version share an address. -/
theorem byAddress_perm (order : bindings.Perm bindings')
    (distinct : (bindings.map fun b => (b.address, b.version)).Nodup) :
    (ofBindings bindings).byAddress = (ofBindings bindings').byAddress := by
  refine Table.ext_find? fun address => ?_
  change (ofBindings bindings).atAddress? address = (ofBindings bindings').atAddress? address
  obtain ⟨b, found, counts⟩ | ⟨absent, apart⟩ := atAddress?_ofBindings bindings address
  · obtain ⟨c, found', counts'⟩ | ⟨-, apart⟩ := atAddress?_ofBindings bindings' address
    · have member := order.mem_iff.2 counts'.mem
      have above := counts.newest member counts'.at_address
      have below := counts'.newest (order.mem_iff.1 counts.mem) counts.at_address
      have version : b.version = c.version := Version.eq_of_isLE below above
      have same : b = c := List.inj_on_of_nodup_map distinct counts.mem member
        (Prod.ext (counts.at_address.trans counts'.at_address.symm) version)
      rw [found, found', same]
    · exact absurd counts.at_address (apart b (order.mem_iff.1 counts.mem))
  · obtain ⟨c, found', counts'⟩ | ⟨absent', -⟩ := atAddress?_ofBindings bindings' address
    · exact absurd counts'.at_address (apart c (order.mem_iff.2 counts'.mem))
    · rw [absent, absent']

theorem byVersion_ofBindings (bindings : List Binding) :
    (ofBindings bindings).byVersion = bindings.foldl (fun t b => t.insert b.key b) ∅ := by
  have inserted (registry : Registry) : (bindings.foldl insert registry).byVersion =
      bindings.foldl (fun t b => t.insert b.key b) registry.byVersion := by
    induction bindings generalizing registry with
    | nil => rfl
    | cons b rest ih => exact ih (registry.insert b)
  exact inserted .empty

theorem find?_eq_some_iff (distinct : (bindings.map Binding.key).Nodup) {name : ContractName} {version : Version} :
    (ofBindings bindings).find? name version = some b ↔
      b ∈ bindings ∧ b.name = name ∧ b.version = version := by
  rw [find?, byVersion_ofBindings, Table.find?_insertAll_of_nodup distinct, Binding.key, Prod.mk.injEq]
  refine or_iff_left ?_
  rintro ⟨-, wrong⟩
  cases wrong

theorem byVersion_perm (order : bindings.Perm bindings') (distinct : (bindings.map Binding.key).Nodup) :
    (ofBindings bindings).byVersion = (ofBindings bindings').byVersion := by
  rw [byVersion_ofBindings, byVersion_ofBindings]
  exact Table.insertAll_perm order (fun b member c member' => List.inj_on_of_nodup_map distinct member member') ∅

theorem mem_addressesOf_iff (distinct : (bindings.map Binding.key).Nodup) {version : Version} :
    address ∈ (ofBindings bindings).addressesOf version ↔
      ∃ b ∈ bindings, b.version = version ∧ b.address = address := by
  have listed (b : Binding) :
      b ∈ ((ofBindings bindings).byVersion.filter fun key _ => key.2 == version).values ↔
        b ∈ bindings ∧ b.version = version := by
    rw [Table.mem_values_iff]
    simp only [Table.find?_filter, Option.filter_eq_some_iff, Prod.exists, beq_iff_eq]
    constructor
    · rintro ⟨name, version, found, rfl⟩
      have known := (find?_eq_some_iff distinct).1 found
      exact ⟨known.1, known.2.2⟩
    · rintro ⟨member, rfl⟩
      exact ⟨b.name, b.version, (find?_eq_some_iff distinct).2 ⟨member, rfl, rfl⟩, rfl⟩
  rw [addressesOf, Table.mem_keys_ofList, List.map_map, List.mem_map]
  simp only [listed, Function.comp, and_assoc]

theorem pairwise_keys {α : Type} (t : Table Address α) : t.keys.Pairwise (· < ·) :=
  List.pairwise_map.2 (t.sorted.imp fun less => Nat.compare_eq_lt.1 less)

/-- The addresses are listed as if they were sorted, in whatever order the contracts at them are visited. -/
theorem addresses_eq_mergeSort {visited : List (Address × Binding)}
    (all : visited.Perm registry.byAddress.entries) : registry.addresses = (visited.map (·.1)).mergeSort :=
  Address.eq_mergeSort (pairwise_keys _) (all.map _)

/-- The addresses of a version are listed as if they were sorted and repetitions left out. -/
theorem addressesOf_eq_destutter {visited : List ((ContractName × Version) × Binding)}
    (all : visited.Perm registry.byVersion.entries) (version : Version) :
    registry.addressesOf version =
      ((visited.filter (·.1.2 == version)).map (·.2.address)).mergeSort.destutter (· ≠ ·) := by
  refine Address.eq_destutter (pairwise_keys _) fun address => ?_
  have order := ((all.filter (·.1.2 == version)).map (·.2.address)).mem_iff (a := address)
  rw [order, addressesOf, Table.mem_keys_ofList, List.map_map, Table.values, List.map_map]
  rfl

theorem event?_eq_some_iff {selector : Hash} {e : Abi.EventSchema} :
    (ofBindings bindings).event? selector = some e ↔
      ∃ earlier b later, bindings = earlier ++ b :: later ∧
        b.interface.events.find? (·.selector = selector) = some e ∧
        ∀ c ∈ earlier, ∀ e ∈ c.interface.events, e.selector ≠ selector := by
  rw [event?_ofBindings, List.find?_flatMap, List.findSome?_eq_some_iff]
  simp only [List.find?_eq_none, decide_eq_true_eq, ne_eq]

theorem event?_eq_none_iff {selector : Hash} :
    (ofBindings bindings).event? selector = none ↔
      ∀ b ∈ bindings, ∀ e ∈ b.interface.events, e.selector ≠ selector := by
  rw [event?_ofBindings, List.find?_flatMap, List.findSome?_eq_none_iff]
  simp only [List.find?_eq_none, decide_eq_true_eq, ne_eq]

/-- What a registry answers that was built from contracts of different roles or versions. Each is found under its
role and version; at an address the newest one counts, the first of them if several are; the addresses of all, and
of one version, are listed in their order; a selector stands for the first event that has it. To register the
contracts in another order changes none of the addresses and versions if no two of one version share an address. -/
theorem answers_of_bindings {bindings : List Binding} (distinct : (bindings.map Binding.key).Nodup) :
    let registry := ofBindings bindings
    (∀ name version b, registry.find? name version = some b ↔
      b ∈ bindings ∧ b.name = name ∧ b.version = version) ∧
    registry.addresses.Pairwise (· < ·) ∧
    (∀ address, address ∈ registry.addresses ↔ ∃ b ∈ bindings, b.address = address) ∧
    (∀ address ∈ registry.addresses, ∃ b, registry.atAddress? address = some b) ∧
    (∀ address b, registry.atAddress? address = some b ↔ b.CountsAt address bindings) ∧
    (∀ version, (registry.addressesOf version).Pairwise (· < ·) ∧
      ∀ address, address ∈ registry.addressesOf version ↔
        ∃ b ∈ bindings, b.version = version ∧ b.address = address) ∧
    (∀ selector e, registry.event? selector = some e ↔
      ∃ earlier b later, bindings = earlier ++ b :: later ∧
        b.interface.events.find? (·.selector = selector) = some e ∧
        ∀ c ∈ earlier, ∀ e ∈ c.interface.events, e.selector ≠ selector) ∧
    (∀ selector, registry.event? selector = none ↔
      ∀ b ∈ bindings, ∀ e ∈ b.interface.events, e.selector ≠ selector) ∧
    ((bindings.map fun b => (b.address, b.version)).Nodup → ∀ bindings', bindings.Perm bindings' →
      (∀ address, (ofBindings bindings').atAddress? address = registry.atAddress? address) ∧
      (ofBindings bindings').addresses = registry.addresses ∧
      (∀ name version, (ofBindings bindings').find? name version = registry.find? name version) ∧
      (∀ name, (ofBindings bindings').newest? name = registry.newest? name) ∧
      (∀ names, (ofBindings bindings').newestFirst names = registry.newestFirst names) ∧
      ∀ version, (ofBindings bindings').addressesOf version = registry.addressesOf version) := by
  intro registry
  refine ⟨fun _ _ _ => find?_eq_some_iff distinct, pairwise_keys _, fun _ => mem_addresses_iff,
    fun _ => Table.mem_keys_iff.1, fun _ _ => atAddress?_eq_some_iff,
    fun _ => ⟨pairwise_keys _, fun _ => mem_addressesOf_iff distinct⟩, fun _ _ => event?_eq_some_iff,
    fun _ => event?_eq_none_iff, fun apart bindings' order => ?_⟩
  have byAddress : registry.byAddress = (ofBindings bindings').byAddress := byAddress_perm order apart
  have byVersion : registry.byVersion = (ofBindings bindings').byVersion := byVersion_perm order distinct
  have versions : registry.versionsOf = (ofBindings bindings').versionsOf := by
    funext name
    rw [versionsOf, versionsOf, byVersion]
  refine ⟨fun _ => ?_, ?_, fun _ _ => ?_, fun _ => ?_, fun _ => ?_, fun _ => ?_⟩
  · rw [atAddress?, atAddress?, byAddress]
  · rw [addresses, addresses, byAddress]
  · rw [find?, find?, byVersion]
  · rw [newest?, newest?, byVersion]
  · rw [newestFirst, newestFirst, versions]
  · rw [addressesOf, addressesOf, byVersion]

/-- Three contracts at one address, of which two are of the same, later version; the first of these two counts. Of
the first two alone the later one counts in either order. -/
theorem answers_of_bindings_shared :
    let slash : Abi.EventSchema := ⟨"Slash", [], false⟩
    let old : Binding := ⟨.nodes, .read "1.9.0", .repeated 1, ⟨[]⟩⟩
    let new : Binding := ⟨.nodes, .read "1.10.0", .repeated 1, ⟨[.event slash]⟩⟩
    let other : Binding := ⟨.manager, .read "v1.10.0", .repeated 1, ⟨[.event slash]⟩⟩
    ([old, new, other].map Binding.key).Nodup ∧
    (ofBindings [old, new, other]).atAddress? (.repeated 1) = some new ∧
    (ofBindings [old, new, other]).event? slash.selector = some slash ∧
    ([old, new].map fun b => (b.address, b.version)).Nodup ∧
    (ofBindings [new, old]).atAddress? (.repeated 1) = (ofBindings [old, new]).atAddress? (.repeated 1) := by
  intro slash old new other
  have distinct : ([old, new, other].map Binding.key).Nodup := by decide
  have pair : ([old, new].map Binding.key).Nodup := by decide
  have apart : ([old, new].map fun b => (b.address, b.version)).Nodup := by decide
  obtain ⟨-, -, -, -, counts, -, events, -⟩ := answers_of_bindings distinct
  obtain ⟨-, -, -, -, -, -, -, -, reordered⟩ := answers_of_bindings pair
  refine ⟨distinct, (counts _ _).2 ⟨[old], [other], rfl, rfl, ?_, ?_⟩, ?_, apart,
    (reordered apart [new, old] (.swap ..)).1 _⟩
  · exact List.forall_mem_singleton.2 fun _ => by decide
  · exact List.forall_mem_singleton.2 fun _ => by decide
  · refine (events _ _).2 ⟨[old], new, [other], rfl, ?_, List.forall_mem_singleton.2 ?_⟩
    · have own : new.interface.events = [slash] := List.mergeSort_singleton _
      rw [own]
      exact List.find?_cons_of_pos (decide_eq_true rfl)
    · have none : old.interface.events = [] := List.mergeSort_nil
      rw [none]
      exact List.forall_mem_nil _

end Registry
end StakeIndex
