import StakeIndex.Proofs.Decimals
import StakeIndex.Proofs.StoredTexts
import StakeIndex.Sql.Record

/-!
Rows that hold an entity's columns, in whatever order and among whatever others, are read as the entity. Words and
addresses come back from decimals, heights from signed numbers, stages and kinds from codes and names, and the rest as
it was bound.
-/
namespace StakeIndex

open Sql (Row Cell topInteger)

namespace Sql

/-- A row has the values of some columns under their names. -/
def Row.Holds (row columns : Row) : Prop := ∀ e ∈ columns, row.lookup e.1 = some e.2

/-- The order of a row's columns does not matter, as long as all have different names. -/
theorem Row.holds_of_perm {row columns : Row} (apart : (row.map (·.1)).Nodup) (perm : row.Perm columns) :
    row.Holds columns := by
  rintro ⟨name, value⟩ member
  obtain ⟨first, rest, rfl⟩ := List.append_of_mem (perm.mem_iff.2 member)
  refine List.lookup_eq_some_iff.2 ⟨first, rest, rfl, fun e earlier => bne_iff_ne.2 fun same => ?_⟩
  rw [List.map_append, List.nodup_append] at apart
  exact apart.2.2 e.1 (List.mem_map_of_mem earlier) name List.mem_cons_self same.symm

/-- A height that a signed number can hold comes back. -/
theorem readHeight_of_le {n : Nat} (low : n ≤ topInteger) : readHeight (min n topInteger : Nat) = n := by
  have top : topInteger < 1 <<< 64 := by decide
  rw [Nat.min_eq_left low, readHeight, ← Int.natCast_mod, Nat.mod_eq_of_lt (Nat.lt_of_le_of_lt low top),
    Int.toNat_natCast]

-- By a tactic, so that simp rewrites with the equation: unfolded, the checks of a whole row would count up to the
-- bound of a port.
theorem ok_bind {α β : Type} (a : α) (f : α → Except Failure β) : Except.ok a >>= f = f a := by rfl

theorem mapM_map_eq_ok {α β : Type} {f : α → β} {g : β → Except Failure α} (undone : ∀ a, g (f a) = .ok a)
    (xs : List α) : (xs.map f).mapM g = .ok xs := by
  have same : g ∘ f = pure := funext undone
  rw [List.mapM_map, same]
  exact (List.mapM_pure (f := id)).trans (congrArg pure (List.map_id xs))

namespace Row

variable {row : Row} {column : String}

theorem cell_eq {c : Cell} (there : row.lookup column = some c) : row.cell column = .ok c := by
  rw [cell, there]

theorem numeric_eq {d : Decimal} (there : row.lookup column = some (.numeric d)) : row.numeric column = .ok d := by
  rw [numeric, cell_eq there]
  rfl

theorem word_eq {w : Word} (there : row.lookup column = some (.word w)) : row.word column = .ok w := by
  rw [word, numeric_eq there, ok_bind, Decimal.word_ofWord]

theorem address_eq {a : Address} (there : row.lookup column = some (.address a)) : row.address column = .ok a := by
  rw [address, numeric_eq there, ok_bind, Decimal.address_ofAddress]

theorem integer_eq {n : Int} (there : row.lookup column = some (.integer n)) : row.integer column = .ok n := by
  rw [integer, cell_eq there]
  rfl

theorem height_eq {n : Nat} (low : n ≤ topInteger) (there : row.lookup column = some (.height n)) :
    row.height column = .ok n := by
  rw [height, integer_eq there, ok_bind, readHeight_of_le low]
  rfl

theorem text_eq {s : String} (there : row.lookup column = some (.text s)) : row.text column = .ok s := by
  rw [text, cell_eq there]
  rfl

theorem text?_eq {α : Type} {f : α → String} {a : Option α}
    (there : row.lookup column = some (.optional (fun a => .text (f a)) a)) : row.text? column = .ok (a.map f) := by
  rw [text?, cell_eq there]
  cases a <;> rfl

theorem boolean_eq {b : Bool} (there : row.lookup column = some (.boolean b)) : row.boolean column = .ok b := by
  rw [boolean, cell_eq there]
  rfl

theorem time_eq {t : Instant} (there : row.lookup column = some (.time t)) : row.time column = .ok t := by
  rw [time, cell_eq there]
  rfl

theorem json_eq {j : Json} (there : row.lookup column = some (.json j)) : row.json column = .ok j := by
  rw [json, cell_eq there]
  rfl

theorem numerics_eq {ds : List Decimal} (there : row.lookup column = some (.numerics ds)) :
    row.numerics column = .ok ds := by
  rw [numerics, cell_eq there]
  rfl

theorem hash_eq {h : Hash} (there : row.lookup column = some (.text h.hex)) : row.hash column = .ok h := by
  rw [hash, text_eq there, ok_bind, readHash, Hash.read?_hex]

theorem ip_eq {ip : Ipv4} (there : row.lookup column = some (.text ip.text)) : row.ip column = .ok ip := by
  rw [Row.ip, text_eq there, ok_bind, readIp, Ipv4.read?_text]

end Row
end Sql

namespace Validator

theorem ofRow_eq {v : Validator} {row : Row} (low : v.height ≤ topInteger) (held : row.Holds v.columns) :
    ofRow row = .ok v := by
  -- One lookup for each column, in the order in which they are stored; the entity asks for them in its own order.
  simp only [Row.Holds, columns, List.forall_mem_cons] at held
  obtain ⟨id, height, name, address, requested, description, fee, registered, minimum, accepts, authorized, active,
    linked, staked, -⟩ := held
  simp only [ofRow, Row.word_eq id, Row.height_eq low height, Row.text_eq name, Row.address_eq address,
    Row.address_eq requested, Row.text_eq description, Row.word_eq fee, Row.time_eq registered, Row.word_eq minimum,
    Row.boolean_eq accepts, Row.boolean_eq authorized, Row.word_eq active, Row.word_eq linked, Row.word_eq staked]
  rfl

end Validator

theorem DelegationState.ofCode_code (s : DelegationState) : ofCode s.code = s := by cases s <;> rfl

namespace Delegation

theorem ofRow_eq {d : Delegation} {row : Row} (low : d.height ≤ topInteger) (held : row.Holds d.columns) :
    ofRow row = .ok d := by
  simp only [Row.Holds, columns, List.forall_mem_cons] at held
  obtain ⟨id, height, holder, validator, amount, period, created, started, finished, info, state, txHash, -⟩ := held
  simp only [ofRow, Row.word_eq id, Row.height_eq low height, Row.address_eq holder, Row.word_eq validator,
    Row.word_eq amount, Row.word_eq period, Row.time_eq created, Row.word_eq started, Row.word_eq finished,
    Row.text_eq info, Row.integer_eq state, Row.hash_eq txHash, Sql.ok_bind, DelegationState.ofCode_code]
  rfl

end Delegation

theorem NodeStatus.ofCode_code (s : NodeStatus) : ofCode s.code = .ok s := by cases s <;> rfl

namespace Node

theorem readPort_of_lt {port : Nat} (low : port < 65536) : readPort port = .ok port := by
  unfold readPort
  rw [if_pos ⟨Int.natCast_nonneg _, Int.ofNat_lt.2 low⟩, Int.toNat_natCast]

theorem ofRow_eq {n : Node} {row : Row} (low : n.height ≤ topInteger) (port : n.port < 65536)
    (held : row.Holds n.columns) : ofRow row = .ok n := by
  simp only [Row.Holds, columns, List.forall_mem_cons] at held
  obtain ⟨id, height, name, ip, publicIp, number, start, next, last, finish, status, validator, time, -⟩ := held
  simp only [ofRow, Row.word_eq id, Row.height_eq low height, Row.text_eq name, Row.ip_eq ip, Row.ip_eq publicIp,
    Row.integer_eq number, readPort_of_lt port, Row.word_eq start, Row.time_eq next, Row.time_eq last,
    Row.time_eq finish, Row.integer_eq status, Int.toNat_natCast, NodeStatus.ofCode_code, Row.word_eq validator,
    Row.time_eq time, Sql.ok_bind]
  rfl

end Node

theorem AccountType.ofRank_rank (t : AccountType) : ofRank t.rank = t := by cases t <;> rfl

theorem Account.ofRow_eq {a : Account} {row : Row} (held : row.Holds a.columns) : ofRow row = .ok a := by
  simp only [Row.Holds, columns, List.forall_mem_cons] at held
  obtain ⟨address, type, -⟩ := held
  simp only [ofRow, Row.address_eq address, Row.integer_eq type, Sql.ok_bind, AccountType.ofRank_rank]
  rfl

namespace ContractEvent

/-- The row's own number becomes the number of the event. -/
theorem ofRow_eq {e : ContractEvent} {id : Int} {row : Row} (low : e.height ≤ topInteger)
    (place : e.logIndex ≤ topInteger) (numbered : row.lookup "id" = some (.integer id))
    (held : row.Holds e.columns) : ofRow row = .ok { e with id := some id } := by
  simp only [Row.Holds, columns, List.forall_mem_cons] at held
  obtain ⟨contract, event, address, height, index, time, txHash, params, removed, type, ids, addresses, flagged,
    -⟩ := held
  have found : (e.boundType.map BoundType.text).bind Named.read? = e.boundType := by
    cases e.boundType with
    | none => rfl
    | some t => exact BoundType.read?_text t
  simp only [ofRow, Row.integer_eq numbered, Row.text_eq contract, ContractName.find_text, Row.text_eq event,
    Row.address_eq address, Row.height_eq low height, Row.height_eq place index, Row.time_eq time,
    Row.hash_eq txHash, Row.json_eq params, Row.boolean_eq removed, Row.text?_eq type, found,
    Row.numerics_eq ids, Sql.mapM_map_eq_ok Decimal.word_ofWord, Row.numerics_eq addresses,
    Sql.mapM_map_eq_ok Decimal.address_ofAddress, Row.boolean_eq flagged, Sql.ok_bind]
  rfl

end ContractEvent

theorem ValidatorFigure.ofCode?_code (f : ValidatorFigure) : ofCode? f.code = some f := by cases f <;> rfl

/-- The validator stands in the row as its subject. -/
theorem ValidatorStatistic.ofRow_eq {s : ValidatorStatistic} {row : Row} (low : s.height ≤ topInteger)
    (held : row.Holds (("subject", .word s.validatorId) :: s.columns.tail)) : ofRow row = .ok s := by
  simp only [Row.Holds, columns, List.tail_cons, List.forall_mem_cons] at held
  obtain ⟨subject, height, time, figure, amount, -⟩ := held
  simp only [ofRow, Row.word_eq subject, Row.height_eq low height, Row.time_eq time, Row.integer_eq figure,
    ValidatorFigure.ofCode?_code, Row.word_eq amount, Sql.ok_bind]
  rfl

/-- The holder is not in the row, which is one of the holder's ledger. -/
theorem RewardClaim.ofRow_eq {c : RewardClaim} {row : Row} (low : c.height ≤ topInteger)
    (place : c.logIndex ≤ topInteger) (held : row.Holds c.columns.tail) : ofRow c.holder row = .ok c := by
  simp only [Row.Holds, columns, List.tail_cons, List.forall_mem_cons] at held
  obtain ⟨height, index, time, amount, -⟩ := held
  simp only [ofRow, Row.height_eq low height, Row.height_eq place index, Row.time_eq time, Row.word_eq amount,
    Sql.ok_bind]
  rfl

namespace SystemEvent

theorem readKind_text (k : SystemEventKind) : readKind k.text = .ok k := by
  rw [readKind, SystemEventKind.read?_text]

theorem ofRow_eq {e : SystemEvent} {row : Row} (low : e.height ≤ topInteger) (held : row.Holds e.columns) :
    ofRow row = .ok e := by
  simp only [Row.Holds, columns, List.forall_mem_cons] at held
  obtain ⟨height, time, kind, senderId, recipientId, sender, recipient, before, after, change, -⟩ := held
  simp only [ofRow, Row.height_eq low height, Row.time_eq time, Row.text_eq kind, readKind_text,
    Row.word_eq senderId, Row.word_eq recipientId, Row.address_eq sender, Row.address_eq recipient,
    Row.word_eq before, Row.word_eq after, Row.numeric_eq change, Sql.ok_bind]
  rfl

end SystemEvent
end StakeIndex
