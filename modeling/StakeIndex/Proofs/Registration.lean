import StakeIndex.Contract.Registry
import StakeIndex.Proofs.Table

/-!
What a registry holds of the bindings that it is built from: at an address one of them, and under a selector
the first event that was registered with it, whichever contract it belongs to.
-/
namespace StakeIndex

open Abi (EventSchema)

theorem find?_addEvent (events : Table Hash EventSchema) (e : EventSchema) (selector : Hash) :
    (Registry.addEvent events e).find? selector =
      (events.find? selector).or (if e.selector = selector then some e else none) := by
  unfold Registry.addEvent
  split
  next known found =>
    by_cases same : e.selector = selector
    · rw [← same, found, Option.some_or]
    · rw [if_neg same, Option.or_none]
  next absent =>
    rw [Table.find?_insert]
    by_cases same : e.selector = selector
    · rw [← same, if_pos rfl, if_pos rfl, absent, Option.none_or]
    · rw [if_neg same, if_neg (Ne.symm same), Option.or_none]

theorem find?_addEvents (added : List EventSchema) (events : Table Hash EventSchema) (selector : Hash) :
    (added.foldl Registry.addEvent events).find? selector =
      (events.find? selector).or (added.find? (·.selector = selector)) := by
  induction added generalizing events with
  | nil => exact Option.or_none.symm
  | cons e rest ih =>
    rw [List.foldl_cons, ih, find?_addEvent, Option.or_assoc, List.find?_cons]
    by_cases same : e.selector = selector <;> simp [same]

/-- The event of a selector is the first one that was registered with it. -/
theorem event?_ofBindings (bindings : List Binding) (selector : Hash) :
    (Registry.ofBindings bindings).event? selector =
      (bindings.flatMap (·.interface.events)).find? (·.selector = selector) := by
  have added (registry : Registry) : (bindings.foldl Registry.insert registry).event? selector =
      (registry.event? selector).or
        ((bindings.flatMap (·.interface.events)).find? (·.selector = selector)) := by
    induction bindings generalizing registry with
    | nil => exact Option.or_none.symm
    | cons binding rest ih =>
      have first : (registry.insert binding).event? selector = (registry.event? selector).or
          (binding.interface.events.find? (·.selector = selector)) := find?_addEvents ..
      rw [List.foldl_cons, ih, first, Option.or_assoc, List.flatMap_cons, List.find?_append]
  exact (added .empty).trans (Option.none_or ..)

theorem atAddress?_insert {registry : Registry} {binding b : Binding} {address : Address}
    (found : (registry.insert binding).atAddress? address = some b) :
    b = binding ∨ registry.atAddress? address = some b := by
  have put (found : (registry.byAddress.insert binding.address binding).find? address = some b) :
      b = binding ∨ registry.atAddress? address = some b := by
    rw [Table.find?_insert] at found
    split at found
    · exact .inl (Option.some.inj found).symm
    · exact .inr found
  change (Registry.addAddress registry.byAddress binding).find? address = some b at found
  unfold Registry.addAddress at found
  split at found
  · split at found
    · exact put found
    · exact .inr found
  · exact put found

/-- The contract at an address is one of those that were registered. -/
theorem mem_of_atAddress? {bindings : List Binding} {binding : Binding} {address : Address}
    (found : (Registry.ofBindings bindings).atAddress? address = some binding) : binding ∈ bindings := by
  have among (bindings : List Binding) {registry : Registry}
      (found : (bindings.foldl Registry.insert registry).atAddress? address = some binding) :
      binding ∈ bindings ∨ registry.atAddress? address = some binding := by
    induction bindings generalizing registry with
    | nil => exact .inr found
    | cons first rest ih =>
      obtain member | found := ih found
      · exact .inl (List.mem_cons_of_mem _ member)
      · refine (atAddress?_insert found).imp_left fun same => ?_
        rw [same]
        exact List.mem_cons_self
  obtain member | wrong := among bindings found
  · exact member
  · cases wrong

/-- The contract of a role and version is one of those that were registered, and has that role. -/
theorem mem_of_find? {bindings : List Binding} {binding : Binding} {name : ContractName} {version : Version}
    (found : (Registry.ofBindings bindings).find? name version = some binding) :
    binding ∈ bindings ∧ binding.name = name := by
  have among (bindings : List Binding) {registry : Registry}
      (found : (bindings.foldl Registry.insert registry).find? name version = some binding) :
      (binding ∈ bindings ∧ binding.name = name) ∨ registry.find? name version = some binding := by
    induction bindings generalizing registry with
    | nil => exact .inr found
    | cons first rest ih =>
      obtain ⟨member, role⟩ | found := ih found
      · exact .inl ⟨List.mem_cons_of_mem _ member, role⟩
      change (registry.byVersion.insert (first.name, first.version) first).find? (name, version) =
        some binding at found
      rw [Table.find?_insert] at found
      split at found
      next same =>
        cases found
        exact .inl ⟨List.mem_cons_self, (congrArg Prod.fst same).symm⟩
      next => exact .inr found
  obtain known | wrong := among bindings found
  · exact known
  · cases wrong

theorem Registry.find?_of_require {registry : Registry} {name : ContractName} {version : Version} {binding : Binding}
    (known : registry.require name version = .ok binding) : registry.find? name version = some binding := by
  unfold Registry.require at known
  split at known
  next found =>
    cases known
    exact found
  next => cases known

end StakeIndex
