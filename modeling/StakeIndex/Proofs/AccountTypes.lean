import Mathlib.Data.List.MinMax
import StakeIndex.Proofs.Interleaving
import StakeIndex.Proofs.Sessions

/-!
The types of accounts. An address has the highest of the types that it began with and was saved with, so
what is known of it only rises, and the order of the calls is of no matter. Events of the token introduce
accounts, but never the address of no account.
-/
namespace StakeIndex

open Dialogue Job

namespace AccountType

variable {types types' : List AccountType} {type : AccountType}

theorem mem_argmax : type ∈ types.argmax rank ↔ type ∈ types ∧ ∀ other ∈ types, other.rank ≤ type.rank := by
  rw [List.mem_argmax_iff]
  refine ⟨fun ⟨member, highest, _⟩ => ⟨member, highest⟩, fun ⟨member, highest⟩ => ⟨member, highest, ?_⟩⟩
  intro other among above
  rw [rank_inj (le_antisymm above (highest other among))]

theorem argmax_congr (same : ∀ type, type ∈ types ↔ type ∈ types') : types.argmax rank = types'.argmax rank := by
  apply Option.ext
  intro type
  simp only [← Option.mem_def, mem_argmax, same]

theorem argmax_concat (types : List AccountType) (type : AccountType) :
    (types ++ [type]).argmax rank = some (((types.argmax rank).map (·.max type)).getD type) := by
  rw [List.argmax_concat]
  cases types.argmax rank with
  | none => rfl
  | some known => exact (apply_ite some (known.rank < type.rank) type known).symm

theorem argmax_append (known : type ∈ types.argmax rank) (types' : List AccountType) :
    ∃ higher ∈ (types ++ types').argmax rank, type.rank ≤ higher.rank := by
  have member := List.mem_append_left types' (List.argmax_mem known)
  cases highest : (types ++ types').argmax rank with
  | none => cases List.argmax_eq_none.1 highest ▸ member
  | some higher => exact ⟨higher, rfl, List.le_of_mem_argmax member highest⟩

end AccountType

/-- The types that an address was saved with. -/
def typesSaved (address : Address) (requests : List StoreRequest) : List AccountType :=
  ((requests.filterMap (·.account?)).filter (·.address = address)).map (·.type)

theorem typesSaved_append (address : Address) (requests requests' : List StoreRequest) :
    typesSaved address (requests ++ requests') = typesSaved address requests ++ typesSaved address requests' := by
  simp only [typesSaved, List.filterMap_append, List.filter_append, List.map_append]

namespace Tables

/-- The type that is known for an address, and those that it is saved with. -/
def typesOf (t : Tables) (address : Address) (requests : List StoreRequest) : List AccountType :=
  (t.accounts.find? address).toList ++ typesSaved address requests

theorem typesOf_append (t : Tables) (address : Address) (requests requests' : List StoreRequest) :
    t.typesOf address (requests ++ requests') = t.typesOf address requests ++ typesSaved address requests' := by
  simp only [typesOf, typesSaved_append, List.append_assoc]

/-- An address has the highest of its types. -/
theorem type_performAll (t : Tables) (requests : List StoreRequest) (address : Address) :
    (t.performAll requests).accounts.find? address = (t.typesOf address requests).argmax AccountType.rank := by
  -- By the last request, which raises what the ones before it came to.
  induction requests using List.reverseRecOn with
  | nil => cases known : t.accounts.find? address <;> simp [typesOf, typesSaved, known]
  | append_singleton rest r ih =>
    rw [performAll_append, performAll_cons, performAll_nil, typesOf_append]
    cases stored : r.account? with
    | none =>
      have nothing : typesSaved address [r] = [] := by simp [typesSaved, stored]
      rw [(perform_frame r _).1 stored, ih, nothing, List.append_nil]
    | some a =>
      obtain rfl : r = .saveAccount a := by
        cases r <;> cases stored
        rfl
      change ((t.performAll rest).saveAccount a).accounts.find? address = _
      rw [find?_saveAccount]
      split
      next mine =>
        have saved : typesSaved address [.saveAccount a] = [a.type] := by
          simp [typesSaved, StoreRequest.account?, mine]
        rw [saved, AccountType.argmax_concat, ← ih, mine]
      next other =>
        have nothing : typesSaved address [.saveAccount a] = [] := by
          simp [typesSaved, StoreRequest.account?, Ne.symm other]
        rw [nothing, List.append_nil, ih]

theorem type_rises (t : Tables) (requests : List StoreRequest) {j k : Nat} (later : j ≤ k)
    {address : Address} {type : AccountType}
    (known : (t.performAll (requests.take j)).accounts.find? address = some type) :
    ∃ higher, (t.performAll (requests.take k)).accounts.find? address = some higher ∧
      type.rank ≤ higher.rank := by
  rw [type_performAll] at known ⊢
  -- What was asked later only adds types.
  have split := List.take_append_drop j (requests.take k)
  rw [List.take_take, min_eq_left later] at split
  rw [← split, typesOf_append]
  exact AccountType.argmax_append known _

theorem accounts_orderless (t : Tables) {requests requests' : List StoreRequest}
    (order : (requests.filterMap (·.account?)).Perm (requests'.filterMap (·.account?))) :
    (t.performAll requests).accounts = (t.performAll requests').accounts := by
  refine Table.ext_find? fun address => ?_
  rw [type_performAll, type_performAll]
  refine AccountType.argmax_congr fun type => List.Perm.mem_iff ?_
  exact ((order.filter _).map _).append_left _

end Tables

section Sessions

variable {heard : Hearsay} {context : Context} {t t' : Tables} {deeds : List Deed}

theorem handleLog_introduces {binding : Binding} (token : binding.name = .token) (context : Context)
    (header : BlockHeader) (log : RawLog) :
    Within Introduces (handleLog context binding header log) fun _ => True := by
  unfold handleLog
  refine within_lift_bind fun decoded => ?_
  unfold handleEvent
  simp only [token]
  exact (handleToken_within ..).mono fun _ _ => trivial

/-- Events of the token save no account for the address of no account. -/
def tokenCode (registry : Registry) : Code where
  holds _ := True
  may
    | some log, .saveAccount a => ∀ binding, registry.atAddress? log.address = some binding →
      binding.name = .token → a.address ≠ .zero
    | _, _ => True
  returns _ := True

theorem tokenCode_governs : (tokenCode context.registry).Governs heard context fun _ => True where
  keeps _ _ _ _ _ := trivial
  handles binding header log known _ := by
    by_cases token : binding.name = .token
    · refine (Code.conforms_of_within (handleLog_introduces token context header log) fun r introduces => ?_).mono
        fun _ _ => ⟨trivial, trivial⟩
      cases introduces with
      | account other => exact fun _ _ _ => other
    · refine (Code.conforms_of_within (handleLog_within context binding header log) fun r may => ?_).mono
        fun _ _ => ⟨trivial, trivial⟩
      cases may with
      | account a =>
        intro binding' known' token'
        cases known.symm.trans known'
        exact absurd token' token
      | _ => trivial
  reads _ _ _ _ _ _ := (Code.conforms_consults (EpochSync.delegation_consults ..)).mono fun _ _ => trivial
  stores r may _ := by cases may <;> trivial

/-- What becomes of the accounts when deeds lead from some tables to others. At every moment an address has
the highest of the type that it began with and of those that it was saved with since, so it stays stored and
its type never falls; any other calls among which the accounts are saved in another order lead to the same
accounts; and a log of the token never makes the address of no account one. -/
structure TypesRise (context : Context) (t : Tables) (deeds : List Deed) (t' : Tables) : Prop where
  performed : t' = t.performAll (deeds.flatMap Deed.calls)
  highest : ∀ n address, (t.performAll ((deeds.flatMap Deed.calls).take n)).accounts.find? address =
    (t.typesOf address ((deeds.flatMap Deed.calls).take n)).argmax AccountType.rank
  rises : ∀ j k, j ≤ k → ∀ address type,
    (t.performAll ((deeds.flatMap Deed.calls).take j)).accounts.find? address = some type →
      ∃ higher, (t.performAll ((deeds.flatMap Deed.calls).take k)).accounts.find? address = some higher ∧
        type.rank ≤ higher.rank
  orderless : ∀ requests : List StoreRequest,
    (requests.filterMap (·.account?)).Perm ((deeds.flatMap Deed.calls).filterMap (·.account?)) →
      (t.performAll requests).accounts = t'.accounts
  nonzero : ∀ deed ∈ deeds, ∀ log a, (some log, StoreRequest.saveAccount a) ∈ deed.performed →
    ∀ binding, context.registry.atAddress? log.address = some binding → binding.name = .token →
      a.address ≠ .zero

/-- The types of accounts rise in all sessions, whatever is heard and wherever they fail. -/
theorem Session.types_rise (session : Session heard context t deeds t') : TypesRise context t deeds t' where
  performed := session.tables
  highest n address := t.type_performAll _ address
  rises _ _ later _ _ known := t.type_rises _ later known
  orderless requests order := by
    rw [session.tables]
    exact t.accounts_orderless order
  nonzero deed member log a stored := by
    obtain ⟨-, kept⟩ := tokenCode_governs.session session (fun _ _ _ _ => trivial) trivial
    exact (kept deed member).performed _ stored

/-- A token, besides the contract of delegations. -/
def tokenBinding : Binding := ⟨.token, ⟨"1.0.0"⟩, .ofWord 2, ⟨[]⟩⟩

def tokenContext : Context where
  mode := .archive
  registry := {
    byAddress := delegationContext.registry.byAddress.insert (.ofWord 2) tokenBinding
    byVersion := ∅
    events := delegationContext.registry.events.insert (.ofWord 9)
      ⟨"Transfer", [⟨"from", .address, true⟩, ⟨"to", .address, true⟩, ⟨"value", .uint 256, false⟩], false⟩ }

/-- A log of tokens that go from one address to another. -/
def transferLog (source target : Word) (height : Nat) : RawLog :=
  ⟨.ofWord 2, [.ofWord 9, .ofWord source, .ofWord target], Abi.wordOf 5, height, .zero, 0, false⟩

/-- Tokens are minted for an address, it delegates, and it receives more. -/
theorem types_rise_minted :
    let logs := [transferLog 0 4 10, proposedLog 1 20, transferLog 5 4 30]
    let session := processed evenChain tokenContext logs Tables.empty
    TypesRise tokenContext .empty session.1 session.2 ∧
      (session.1.flatMap Deed.calls).filterMap (·.account?) =
        [⟨.ofWord 4, .default⟩, ⟨.ofWord 4, .delegator⟩, ⟨.ofWord 5, .default⟩, ⟨.ofWord 4, .default⟩] ∧
      session.2.accounts.find? (.ofWord 4) = some .delegator := by
  intro logs session
  exact ⟨(session_processed evenChain tokenContext logs .empty).types_rise, by decide +kernel,
    by decide +kernel⟩

end Sessions

end StakeIndex
