import Mathlib.Data.List.Pairwise
import StakeIndex.Proofs.SyncTotals

/-!
Synchronisations one after another, by a synchroniser that keeps the delegations it has read. What it keeps
are the delegations that it stored last, but for their heights. So a delegation comes out as the chain tells
of it, unless it was stored before in the same stage; then it comes out as it was stored.
-/
namespace StakeIndex

open Dialogue Job

namespace ViewContract

theorem delegationOf_unstamped {id : Word} {height : Nat} {values : List Abi.Value} :
    ∀ d, delegationOf id height values = .ok d → d.txHash = .zero := by
  unfold delegationOf
  dsimp only
  repeat refine ok_bind fun _ => ?_
  rintro d ⟨⟩
  rfl

theorem delegation_unstamped (c : ViewContract) (height : Nat) (id : Word) :
    Consults (c.delegation id height) fun d => d.txHash = .zero :=
  (c.read_consults height _ _ _ fun _ => delegationOf_unstamped).bind fun _ zero =>
    (c.delegationState_consults height id).bind fun _ _ => within_pure zero

end ViewContract

section Exchanges

/-- The delegation that is kept with an exchange. -/
def remembered? : PartExchange → Option Delegation
  | ⟨.plain (.shared (.rememberDelegation d)), _⟩ => some d
  | _ => none

/-- The delegation that is known from an exchange: it was kept before, or it is kept now. -/
def known? : PartExchange → Option Delegation
  | ⟨.plain (.shared (.knownDelegation _)), kept⟩ => kept
  | ⟨.plain (.shared (.rememberDelegation d)), _⟩ => some d
  | _ => none

/-- What is kept is stored with the height, and what is stored is what was known, with the height. -/
structure Sound (height : Nat) (past : List PartExchange) : Prop where
  stored : ∀ e ∈ past, ∀ k, remembered? e = some k →
    .wrote (.saveDelegation { k with height }) ∈ marks past
  read : ∀ d, .wrote (.saveDelegation d) ∈ marks past →
    ∃ e ∈ past, ∃ k, known? e = some k ∧ d = { k with height }

variable {height : Nat} {past later : List PartExchange}

theorem Sound.append (first : Sound height past) (second : Sound height later) :
    Sound height (past ++ later) where
  stored e member d kept := by
    rw [marks_append]
    obtain member | member := List.mem_append.1 member
    · exact List.mem_append_left _ (first.stored e member d kept)
    · exact List.mem_append_right _ (second.stored e member d kept)
  read d wrote := by
    rw [marks_append] at wrote
    obtain wrote | wrote := List.mem_append.1 wrote
    · obtain ⟨e, member, source⟩ := first.read d wrote
      exact ⟨e, List.mem_append_left _ member, source⟩
    · obtain ⟨e, member, source⟩ := second.read d wrote
      exact ⟨e, List.mem_append_right _ member, source⟩

theorem sound_quiet (nothing : ∀ e ∈ past, remembered? e = none)
    (silent : ∀ d, .wrote (.saveDelegation d) ∉ marks past) : Sound height past where
  stored e member _ kept := nomatch (nothing e member).symm.trans kept
  read _ wrote := absurd wrote (silent _)

theorem Looks.quiet (looks : Looks past) : ∀ e ∈ past, remembered? e = none := by
  intro e member
  obtain ⟨r, reply, rfl⟩ := looks e member
  rfl

theorem Looks.append (first : Looks past) (second : Looks later) : Looks (past ++ later) :=
  fun e member => (List.mem_append.1 member).elim (first e) (second e)

theorem Looks.sound (looks : Looks past) : Sound height past :=
  sound_quiet looks.quiet (looks.marks ▸ fun _ => List.not_mem_nil)

theorem sound_flatMap {α : Type} {f : α → List PartExchange} {items : List α}
    (each : ∀ a ∈ items, Sound height (f a)) : Sound height (items.flatMap f) := by
  induction items with
  | nil => exact sound_quiet (fun _ member => (nomatch member)) fun _ wrong => (nomatch wrong)
  | cons a rest ih =>
    obtain ⟨first, others⟩ := List.forall_mem_cons.1 each
    exact first.append (ih others)

theorem Sound.perm (sound : Sound height past) (order : past.Perm later) : Sound height later where
  stored e member d kept :=
    (order.filterMap mark?).mem_iff.1 (sound.stored e (order.mem_iff.2 member) d kept)
  read d wrote := by
    obtain ⟨e, member, source⟩ := sound.read d ((order.filterMap mark?).mem_iff.2 wrote)
    exact ⟨e, order.mem_iff.1 member, source⟩

end Exchanges

section Parts

variable {α β : Type} (height : Nat)

/-- A part that exchanges soundly when it ends well. -/
def Soundly : Promise PartRequest.Answer (Except Stop α) :=
  fun past result => ∀ a, result = .ok a → Sound height past

variable {height} {p : Protocol PartRequest.Answer} {chain : ChainAnswers} {c : ViewContract}
  {known : DelegationCache}

theorem soundly_pure (a : α) : (pure a : Part α).run.Obeys p (Soundly height) :=
  fun _ _ => sound_quiet (fun _ member => (nomatch member)) fun _ wrong => (nomatch wrong)

theorem soundly_throw (stop : Stop) : (throw stop : Part α).run.Obeys p (Soundly height) :=
  fun _ wrong => (nomatch wrong)

theorem Sound.obeys {past : List PartExchange} {part : Part α} (sound : Sound height past)
    (next : part.run.Obeys p (Soundly height)) :
    part.run.Obeys p fun later result => Soundly height (past ++ later) result :=
  next.mono fun _ _ ended a same => sound.append (ended a same)

theorem soundly_bind {part : Part α} {f : α → Part β} (first : part.run.Obeys p (Soundly height))
    (next : ∀ a, (f a).run.Obeys p (Soundly height)) : (part >>= f).run.Obeys p (Soundly height) := by
  exact Obeys.bind_except first (fun past a sound => (sound a rfl).obeys (next a))
    fun past stop _ b wrong => (nomatch wrong)

theorem soundly_map {part : Part α} (f : α → β) (first : part.run.Obeys p (Soundly height)) :
    (f <$> part).run.Obeys p (Soundly height) := by
  rw [map_eq_pure_bind]
  exact soundly_bind first fun a => soundly_pure (f a)

theorem soundly_ask {r : PartRequest} (may : p.asks r) (nothing : ∀ reply, remembered? ⟨r, reply⟩ = none)
    (silent : ∀ reply d, mark? ⟨r, reply⟩ ≠ some (.wrote (.saveDelegation d))) :
    (Part.ask r).run.Obeys p (Soundly height) := by
  refine ⟨may, fun reply _ _ _ => sound_quiet (fun e member => ?_) fun d wrote => ?_⟩
  · cases List.mem_singleton.1 member
    exact nothing reply
  · obtain ⟨e, member, same⟩ := List.mem_filterMap.1 wrote
    cases List.mem_singleton.1 member
    exact silent reply d same

theorem soundly_store {r : StoreRequest} (silent : ∀ d, r ≠ .saveDelegation d) :
    (Part.plain (.store r)).run.Obeys (partProtocol chain c height known) (Soundly height) := by
  refine ⟨trivial, fun reply _ => ?_⟩
  cases reply with
  | error stop => exact fun _ wrong => (nomatch wrong)
  | ok a =>
    refine fun _ _ => sound_quiet (fun e member => ?_) fun d wrote => ?_
    · cases List.mem_singleton.1 member
      rfl
    · cases List.mem_singleton.1 wrote
      exact silent d rfl

/-- A view call asks nothing but the chain, and comes to nothing but what that tells. -/
theorem looks_plain {job : Job α} (steady : Steady chain height job) :
    (Part.plain job).run.Obeys (partProtocol chain c height known) fun past result =>
      Looks past ∧ ∀ a, result = .ok a → told chain job = .ok a := by
  refine (obeys_plain steady.obeys).mono fun past result ⟨looks, _, tells, _⟩ => ⟨looks, ?_⟩
  rintro a rfl
  obtain same | ⟨_, wrong, -⟩ := tells
  · exact same.symm
  · cases wrong

theorem soundly_ifAny {job : Job α} (steady : Steady chain height job) :
    (Part.plain job.ifAny).run.Obeys (partProtocol chain c height known) (Soundly height) := by
  rw [Part.plain_ifAny]
  refine Obeys.bind (looks_plain steady) fun past result ⟨looks, _⟩ => ?_
  change Soundly height (past ++ []) (absent result)
  rw [List.append_nil]
  exact fun _ _ => looks.sound

end Parts

namespace EpochSync

section Reading

variable (height : Nat)

/-- What comes out is what is known, with the height; and where nothing comes out, nothing is kept. -/
def Fetched : Promise PartRequest.Answer (Except Stop Delegation)
  | past, .ok d => marks past = [] ∧ (∀ e ∈ past, ∀ k, remembered? e = some k → d = { k with height }) ∧
      ∃ e ∈ past, ∃ k, known? e = some k ∧ d = { k with height }
  | past, .error _ => marks past = [] ∧ ∀ e ∈ past, remembered? e = none

/-- The same of a delegation that may be absent. -/
def FetchedAny : Promise PartRequest.Answer (Except Stop (Option Delegation))
  | past, .ok (some d) => Fetched height past (.ok d)
  | past, .ok none => Sound height past
  | _, .error _ => True

variable {height} {chain : ChainAnswers} {c : ViewContract} {known : DelegationCache}

theorem fetched_error {past : List PartExchange} {stop : Stop} (kept : Option Delegation) (id : Word)
    (looks : Looks past) :
    Fetched height (⟨.plain (.shared (.knownDelegation id)), kept⟩ :: past) (.error stop) :=
  ⟨looks.marks, List.forall_mem_cons.2 ⟨rfl, looks.quiet⟩⟩

theorem fetched_delegation (id : Word) :
    (Part.plain (delegation c id height)).run.Obeys (partProtocol chain c height known)
      (Fetched height) := by
  unfold delegation
  rw [Part.plain_bind]
  refine ⟨trivial, fun kept comes => ?_⟩
  change (Part.plain (_ >>= _)).run.Obeys _ _
  rw [Part.plain_bind]
  refine Obeys.bind_except (looks_plain (c.delegationState_steady chain height id))
    (fun past state ⟨looks, told_state⟩ => ?_) fun past stop looks => fetched_error kept id looks.1
  cases usable : kept.filter (·.state == state) with
  | some k =>
    -- It is kept in the stage in which it still is, and nothing more is asked.
    obtain rfl := Option.eq_some_of_filter_eq_some usable
    change Fetched height (_ :: (past ++ [])) (.ok { k with height })
    rw [List.append_nil]
    refine ⟨looks.marks, List.forall_mem_cons.2 ⟨fun _ wrong => (nomatch wrong), fun e member k' kept => ?_⟩,
      _, List.mem_cons_self, k, rfl, rfl⟩
    cases (looks.quiet e member).symm.trans kept
  | none =>
    dsimp only
    rw [Part.plain_bind]
    refine Obeys.bind_except (looks_plain (c.delegationRecord_steady chain height id))
      (fun past' read ⟨looks', told_⟩ => ?_)
      fun past' stop looks' => fetched_error kept id (looks.append looks'.1)
    -- What was read is kept before it comes out.
    obtain ⟨-, -, may⟩ := may_remember comes (told_state state rfl) usable (told_ read rfl)
    rw [Part.plain_bind]
    refine ⟨may, fun reply _ => ?_⟩
    set k : Delegation := { read with state }
    change Fetched height
      (⟨.plain (.shared (.knownDelegation id)), kept⟩ ::
        (past ++ (past' ++ [⟨.plain (.shared (.rememberDelegation k)), reply⟩]))) (.ok { k with height })
    rw [← List.append_assoc]
    have both := looks.append looks'
    refine ⟨?_, List.forall_mem_cons.2 ⟨fun _ wrong => (nomatch wrong), fun e member k' kept => ?_⟩,
      _, List.mem_cons_of_mem _ (List.mem_append_right _ (List.mem_singleton_self _)), k, rfl, rfl⟩
    · change marks (_ ++ _) = []
      rw [marks_append, both.marks]
      rfl
    · obtain member | member := List.mem_append.1 member
      · cases (both.quiet e member).symm.trans kept
      · cases List.mem_singleton.1 member
        cases kept
        rfl

theorem fetched_ifAny (id : Word) :
    (Part.plain (delegation c id height).ifAny).run.Obeys (partProtocol chain c height known)
      (FetchedAny height) := by
  rw [Part.plain_ifAny]
  refine Obeys.bind (fetched_delegation id) fun past result fetched => obeys_done ?_
  cases result with
  | ok d => exact fetched
  | error stop =>
    obtain ⟨silent, quiet⟩ := fetched
    cases same : absent (.error stop : Except Stop Delegation) with
    | error stop => trivial
    | ok found =>
      cases found with
      | some d => exact nomatch found_absent same
      | none => exact sound_quiet quiet (silent ▸ fun _ => List.not_mem_nil)

theorem Fetched.stored {past : List PartExchange} {d : Delegation} {reply : Unit}
    (fetched : Fetched height past (.ok d)) :
    Sound height (past ++ [⟨.plain (.store (.saveDelegation d)), .ok reply⟩]) := by
  obtain ⟨silent, kept, e, member, source⟩ := fetched
  have left : marks (past ++ [⟨.plain (.store (.saveDelegation d)), .ok reply⟩]) =
      [.wrote (.saveDelegation d)] := by
    rw [marks_append, silent]
    rfl
  constructor
  · intro e' member' k same
    obtain member' | member' := List.mem_append.1 member'
    · rw [left, kept e' member' k same]
      exact List.mem_singleton_self _
    · cases List.mem_singleton.1 member'
      cases same
  · intro d' wrote
    rw [left] at wrote
    cases List.mem_singleton.1 wrote
    exact ⟨e, List.mem_append_left _ member, source⟩

theorem soundly_batch (left id : Nat) (summed : Nat × StakeByValidator) :
    (batch c height left id summed).run.Obeys (partProtocol chain c height known) (Soundly height) := by
  induction left generalizing id summed with
  | zero => exact soundly_pure _
  | succ left ih =>
    unfold batch
    refine Obeys.bind_except (fetched_ifAny _) (fun past found fetched => ?_)
      fun past stop _ _ wrong => by cases wrong
    cases found with
    | none =>
      refine Sound.obeys fetched (soundly_bind (soundly_ask trivial (fun _ => rfl) ?_) fun _ => ?_)
      · exact fun _ _ wrong => by cases wrong
      · exact soundly_pure _
    | some d =>
      refine ⟨trivial, fun reply _ => ?_⟩
      cases reply with
      | error stop => exact fun _ wrong => by cases wrong
      | ok a =>
        refine (ih _ _).mono fun later result ended a same => ?_
        rw [List.append_cons]
        exact (Fetched.stored fetched).append (ended a same)

theorem soundly_worker (size fuel : Nat) (summed : Nat × StakeByValidator) :
    (worker c height size fuel summed).run.Obeys (partProtocol chain c height known)
      (Soundly height) := by
  induction fuel generalizing summed with
  | zero => exact soundly_throw _
  | succ fuel ih =>
    unfold worker
    refine soundly_bind (soundly_ask trivial (fun _ => rfl) fun reply d => ?_) fun exhausted => ?_
    · cases reply <;> exact fun wrong => by cases wrong
    cases exhausted with
    | true => exact soundly_pure _
    | false =>
      refine soundly_bind (soundly_ask trivial (fun _ => rfl) fun _ _ wrong => by cases wrong) fun n => ?_
      exact soundly_bind (soundly_batch _ _ _) ih

theorem soundly_validators {service : ViewContract} (fuel : Nat) (id : Word) :
    (Part.plain (validators service height fuel id)).run.Obeys (partProtocol chain c height known)
      (Soundly height) := by
  induction fuel generalizing id with
  | zero => exact soundly_pure _
  | succ fuel ih =>
    unfold validators
    rw [Part.plain_bind]
    refine soundly_bind (soundly_ifAny (service.validator_steady chain height id)) fun found => ?_
    cases found with
    | none => exact soundly_pure _
    | some v =>
      dsimp only
      rw [Part.plain_bind]
      refine soundly_bind (soundly_store fun _ wrong => by cases wrong) fun _ => ?_
      cases id.next? with
      | none => exact soundly_pure _
      | some next =>
        dsimp only
        rw [Part.plain_bind]
        exact soundly_bind (ih next) fun _ => soundly_pure _

theorem soundly_nodes {service : ViewContract} (time : Instant) (fuel : Nat) (id : Word)
    (counted : Nat × CountsByValidator) :
    (Part.plain (nodes service height time fuel id counted)).run.Obeys
      (partProtocol chain c height known) (Soundly height) := by
  induction fuel generalizing id counted with
  | zero => exact soundly_pure _
  | succ fuel ih =>
    unfold nodes
    rw [Part.plain_bind]
    refine soundly_bind (soundly_ifAny (service.node_steady chain height id)) fun found => ?_
    cases found with
    | none => exact soundly_pure _
    | some n =>
      dsimp only
      rw [Part.plain_bind]
      refine soundly_bind (soundly_store fun _ wrong => by cases wrong) fun _ => ?_
      cases id.next? with
      | none => exact soundly_pure _
      | some next => exact ih next _

end Reading

/-- What a synchronisation makes of the delegations that are kept: each one that it stores came from them or
from the chain, and is kept afterwards, but for its height; the others are kept as they were. -/
structure Recalls (chain : ChainAnswers) (c : ViewContract) (height : Nat) (known : DelegationCache)
    (saved : List Delegation) (known' : DelegationCache) : Prop where
  comes : ∀ d ∈ saved, recalled chain c height (known.find? d.id) d.id = .ok d
  kept : ∀ d ∈ saved, ∃ k, known'.find? d.id = some k ∧ d = { k with height }
  others : ∀ id, (∀ d ∈ saved, d.id ≠ id) → known'.find? id = known.find? id

section Keeping

variable {chain : ChainAnswers} {c : ViewContract} {height : Nat} {known : DelegationCache}
  {w w' : SyncWorld} {past : List PartExchange}

/-- A delegation is kept as it was stored, but for its height. -/
def KeptAs (height : Nat) (d : Delegation) (w : SyncWorld) : Prop :=
  ∃ k, w.known.find? d.id = some k ∧ d = { k with height }

theorem answers_known {r : PartRequest} {reply : r.Answer} (answered : Answers chain r w reply w') :
    w'.known = (remembered? ⟨r, reply⟩).elim w.known w.known.remember := by
  cases r with
  | plain r =>
    cases r with
    | chain r => exact congrArg SyncWorld.known answered.2
    | store r => obtain ⟨-, rfl⟩ | ⟨_, -, rfl⟩ := answered <;> rfl
    | shared r =>
      cases r with
      | knownDelegation id => exact congrArg SyncWorld.known answered.2
      | _ => exact congrArg SyncWorld.known answered
  | claimBatch =>
    obtain ⟨-, rfl⟩ := answered
    rfl
  | isExhausted => exact congrArg SyncWorld.known answered.2
  | exhaust =>
    cases answered
    rfl

theorem answers_kept {r : PartRequest} {reply : r.Answer} {k : Delegation}
    (answered : Answers chain r w reply w') (source : known? ⟨r, reply⟩ = some k) :
    w'.known.find? k.id = some k := by
  cases r with
  | plain r =>
    cases r with
    | chain r => cases source
    | store r => cases source
    | shared r =>
      cases r with
      | knownDelegation id =>
        obtain ⟨rfl, rfl⟩ := answered
        have found : w'.known.find? id = some k := source
        rw [w'.known.keyed id k found]
        exact found
      | rememberDelegation d =>
        cases source
        rw [answers_known answered]
        exact (w.known.find?_remember k k.id).trans (if_pos rfl)
      | _ => cases source
  | _ => cases source

variable {d : Delegation} (comes : recalled chain c height (known.find? d.id) d.id = .ok d)
include comes

/-- A delegation that comes out is not kept otherwise later on, since it may only be kept as it comes out. -/
theorem KeptAs.along (held : KeptAs height d w) (along : Along (Answers chain) w past w')
    (keeps : ∀ e ∈ past, (partProtocol chain c height known).Keeps e) : KeptAs height d w' := by
  induction along with
  | nil => exact held
  | @cons r reply _ _ _ later answered _ ih =>
    obtain ⟨⟨may, -⟩, keeps⟩ := List.forall_mem_cons.1 keeps
    refine ih ?_ keeps
    unfold KeptAs
    rw [answers_known answered]
    cases kept : remembered? ⟨r, reply⟩ with
    | none => exact held
    | some e =>
      unfold remembered? at kept
      split at kept
      next same =>
        cases kept
        obtain ⟨rfl, -⟩ := Sigma.mk.inj same
        -- Only what a delegation comes to may be kept, and that is settled from the start.
        have again : recalled chain c height (known.find? e.id) e.id = .ok e := may.2
        rw [Option.elim_some, DelegationCache.find?_remember]
        split
        next mine =>
          rw [mine, again] at comes
          cases comes
          exact ⟨d, rfl, by rw [← (recalled_place again).2]⟩
        next => exact held
      next => cases kept

theorem keptAs_of_source {e : PartExchange} {k : Delegation} (along : Along (Answers chain) w past w')
    (keeps : ∀ e ∈ past, (partProtocol chain c height known).Keeps e) (member : e ∈ past)
    (source : known? e = some k) (same : d = { k with height }) : KeptAs height d w' := by
  induction along with
  | nil => cases member
  | @cons r reply _ _ _ later answered rest ih =>
    obtain ⟨-, keeps⟩ := List.forall_mem_cons.1 keeps
    obtain rfl | member := List.mem_cons.1 member
    · refine KeptAs.along comes ⟨k, ?_, same⟩ rest keeps
      rw [same]
      exact answers_kept answered source
    · exact ih keeps member

omit comes in
theorem along_others {id : Word} (along : Along (Answers chain) w past w')
    (others : ∀ e ∈ past, ∀ k, remembered? e = some k → k.id ≠ id) :
    w'.known.find? id = w.known.find? id := by
  induction along with
  | nil => rfl
  | @cons r reply _ _ _ later answered _ ih =>
    obtain ⟨first, others⟩ := List.forall_mem_cons.1 others
    rw [ih others, answers_known answered]
    cases kept : remembered? ⟨r, reply⟩ with
    | none => rfl
    | some k => exact (DelegationCache.find?_remember ..).trans (if_neg (Ne.symm (first k kept)))

end Keeping

section Parts

variable {chain : ChainAnswers} {plan : SyncPlan} {context : Context} {version : Version}
  {c : SyncContracts} {height : Nat} {time : Instant} {t : Tables} {known : DelegationCache} {w : SyncWorld}

theorem soundly_parts : ∀ d ∈ parts plan c height time,
    d.Obeys (partProtocol chain c.controller height known) (Soundly height) := by
  intro d member
  obtain rfl | member := List.mem_cons.1 member
  · exact soundly_map _ (soundly_validators _ _)
  obtain rfl | member := List.mem_cons.1 member
  · exact soundly_map _ (soundly_nodes _ _ _ _)
  · rw [List.eq_of_mem_replicate member]
    exact soundly_map _ (soundly_worker _ _ _)

theorem sound_of_fulfilled {results : List (Except Stop PartResult)}
    {contracts : List (Contract PartRequest.Answer (Except Stop PartResult))}
    (fulfilled : results.Forall₂ (fun result contract => contract.promise contract.past result) contracts)
    (promised : ∀ contract ∈ contracts, contract.promise = Soundly height)
    (fine : ∀ result ∈ results, ∃ a, result = .ok a) :
    ∀ contract ∈ contracts, Sound height contract.past := by
  induction fulfilled with
  | nil => exact fun _ member => (nomatch member)
  | cons first _ ih =>
    obtain ⟨promise, promised⟩ := List.forall_mem_cons.1 promised
    obtain ⟨⟨a, same⟩, fine⟩ := List.forall_mem_cons.1 fine
    refine List.forall_mem_cons.2 ⟨?_, ih promised fine⟩
    rw [promise] at first
    exact first a same

theorem mem_savedDelegations {written : List StoreRequest} {d : Delegation} :
    d ∈ savedDelegations written ↔ .saveDelegation d ∈ written := by
  unfold savedDelegations
  rw [List.mem_filterMap]
  constructor
  · rintro ⟨r, member, same⟩
    unfold StoreRequest.delegation? at same
    split at same
    · cases same
      exact member
    · cases same
  · exact fun member => ⟨_, member, rfl⟩

theorem parts_recall {results : List (Except Stop PartResult)}
    (run : Interleaved (Answers chain) (parts plan c height time) (.start t known) results w)
    (fine : ∀ result ∈ results, ∃ a, result = .ok a)
    (comes : ∀ d, .saveDelegation d ∈ w.written →
      recalled chain c.controller height (known.find? d.id) d.id = .ok d) :
    Recalls chain c.controller height known (savedDelegations w.written) w.known := by
  obtain ⟨merged, contracts, promises, fulfilled, order, along, keeps, -⟩ :=
    run.fulfils answers_serves (List.forall₂_map_right_iff.2 (List.forall₂_same.2 soundly_parts))
      (faithful_start chain c.controller height known t)
  have promised : ∀ contract ∈ contracts, contract.promise = Soundly height := by
    intro contract member
    have among := List.mem_map_of_mem (f := Contract.promise) member
    rw [promises] at among
    obtain ⟨-, -, same⟩ := List.mem_map.1 among
    exact same.symm
  have sound : Sound height merged :=
    (sound_flatMap (sound_of_fulfilled fulfilled promised fine)).perm order.symm
  -- What was stored is what is marked as written in the exchanges of all parts together.
  have written (d : Delegation) :
      .saveDelegation d ∈ w.written ↔ .wrote (.saveDelegation d) ∈ marks merged := by
    rw [(along_leaves along).written]
    change _ ∈ [] ++ _ ↔ _
    rw [List.nil_append, List.mem_filterMap]
    constructor
    · rintro ⟨mark, member, same⟩
      unfold Mark.wrote? at same
      split at same
      · cases same
        exact member
      · cases same
    · exact fun member => ⟨_, member, rfl⟩
  constructor
  · exact fun d member => comes d (mem_savedDelegations.1 member)
  · intro d member
    have stored := mem_savedDelegations.1 member
    obtain ⟨e, member, k, source, same⟩ := sound.read d ((written d).1 stored)
    exact keptAs_of_source (comes d stored) along keeps member source same
  · intro id others
    refine along_others along fun e member k kept mine => ?_
    exact others _ (mem_savedDelegations.2 ((written _).2 (sound.stored e member k kept))) mine

/-- How a synchronisation that returns a summary uses and changes what is kept. -/
theorem Returns.recalls {summary : SyncSummary} (found : findContracts context version = .ok c)
    (returned : Returns (Answers chain) plan context version height time t known (.ok summary) w) :
    Recalls chain c.controller height known (savedDelegations w.written) w.known := by
  generalize same : Except.ok summary = result at returned
  cases returned with
  | unknown => cases same
  | stopped => cases same
  | @closed c' ids counted sums reply before _ found' run answered =>
    cases found.symm.trans found'
    obtain ⟨rfl, rfl⟩ | ⟨stop, rfl, -⟩ := answered
    swap
    · cases same
    obtain ⟨vs, ns, turns, synchronised, -⟩ := parts_synchronise run
    have comes (d : Delegation) (stored : .saveDelegation d ∈ before.written) :
        recalled chain c.controller height (known.find? d.id) d.id = .ok d := by
      have among := synchronised.written.mem_iff.1 stored
      simp only [List.mem_append, List.mem_map, reduceCtorEq, and_false, exists_false, false_or,
        StoreRequest.saveDelegation.injEq, exists_eq_right, storing] at among
      obtain ⟨-, i, -, -, -, there, -⟩ := synchronised.delegations.mem among
      rw [delegationAt_id there]
      exact there
    have kept := parts_recall run (List.forall_mem_cons.2 ⟨⟨_, rfl⟩, List.forall_mem_cons.2
      ⟨⟨_, rfl⟩, List.forall_mem_map.2 fun _ _ => ⟨_, rfl⟩⟩⟩) comes
    change Recalls _ _ _ _ (savedDelegations (before.written ++ [_])) before.known
    rw [savedDelegations, List.filterMap_append, ← savedDelegations]
    exact (List.append_nil (savedDelegations before.written)).symm ▸ kept

end Parts

section Recalling

variable {chain : ChainAnswers} {c : ViewContract} {height : Nat} {id : Word} {d : Delegation}

/-- A delegation without the height at which it stands. -/
def undated (d : Delegation) : Delegation := { d with height := 0 }

/-- The height at which a delegation was kept does not matter. -/
theorem recalled_congr {kept kept' : Option Delegation} (same : kept.map undated = kept'.map undated) :
    recalled chain c height kept id = recalled chain c height kept' id := by
  cases state : told chain (c.delegationState id height) with
  | error stop => rw [recalled_of_fault state, recalled_of_fault state]
  | ok state' =>
    rw [recalled_of_state state, recalled_of_state state]
    cases kept with
    | none =>
      cases kept' with
      | none => rfl
      | some _ => cases same
    | some k =>
      cases kept' with
      | none => cases same
      | some k' =>
        have same : undated k = undated k' := Option.some.inj same
        have stage : (undated k).state = (undated k').state := congrArg Delegation.state same
        have dated : { undated k with height } = { undated k' with height } :=
          congrArg (fun d : Delegation => { d with height }) same
        change k.state = k'.state at stage
        rw [Option.filter_some, Option.filter_some, stage]
        by_cases usable : k'.state == state'
        · rw [if_pos usable, if_pos usable]
          exact congrArg Except.ok dated
        · rw [if_neg usable, if_neg usable]

/-- What comes out is what the chain tells, exactly if the chain tells what is kept in the same stage. -/
theorem recalled_exact {kept : Option Delegation} (comes : recalled chain c height kept id = .ok d) :
    told chain (c.delegationState id height) = .ok d.state ∧
      (told chain (c.delegation id height) = .ok d ↔ ∀ k, kept = some k → k.state = d.state →
        told chain (c.delegation id height) = .ok { k with height }) := by
  obtain ⟨state, -⟩ := recalled_ok comes
  rw [recalled_of_state state] at comes
  refine ⟨state, ?_⟩
  cases usable : kept.filter (·.state == d.state) with
  | some k =>
    rw [usable] at comes
    cases comes
    obtain ⟨rfl, same⟩ := Option.filter_eq_some_iff.1 usable
    refine ⟨fun told_ k' held _ => ?_, fun tells => tells k rfl rfl⟩
    cases held
    exact told_
  | none =>
    rw [usable] at comes
    refine ⟨fun _ k held same => ?_, fun _ => comes⟩
    rw [held, Option.filter_some, if_pos (beq_iff_eq.2 same)] at usable
    cases usable

end Recalling

/-- One synchronisation of several: the chain as it answers meanwhile, what is synchronised, the tables
before, and what is returned and left. -/
structure SyncCall where
  chain : ChainAnswers
  version : Version
  height : Nat
  time : Instant
  before : Tables
  summary : SyncSummary
  after : SyncWorld

/-- The delegations that a synchronisation stores. -/
def SyncCall.delegations (s : SyncCall) : List Delegation := savedDelegations s.after.written

/-- Synchronisations by one synchroniser, the last one first, each of which returns a summary. What is kept
passes from one to the next; the tables may change in between. -/
inductive Syncs (plan : SyncPlan) (context : Context) : List SyncCall → DelegationCache → Prop where
  | start : Syncs plan context [] .empty
  | next {s : SyncCall} {earlier : List SyncCall} {known : DelegationCache} :
    Syncs plan context earlier known →
    Returns (Answers s.chain) plan context s.version s.height s.time s.before known (.ok s.summary)
      s.after →
    Syncs plan context (s :: earlier) s.after.known

/-- The snapshot of a delegation that was stored last. -/
def lastStored : List SyncCall → Word → Option Delegation
  | [], _ => none
  | s :: earlier, id => (s.delegations.find? (·.id == id)).or (lastStored earlier id)

/-- What a contract tells of a delegation is the same, as long as it is in the same stage. -/
def Steadfast (context : Context) (calls : List SyncCall) : Prop :=
  ∀ i ∈ calls, ∀ j ∈ calls, ∀ c c', findContracts context i.version = .ok c →
    findContracts context j.version = .ok c' →
    c.controller.binding.address = c'.controller.binding.address → ∀ id state d,
      told i.chain (c.controller.delegationState id i.height) = .ok state →
      told j.chain (c'.controller.delegationState id j.height) = .ok state →
      told i.chain (c.controller.delegationRecord id i.height) = .ok d →
      told j.chain (c'.controller.delegationRecord id j.height) = .ok { d with height := j.height }

section Histories

variable {plan : SyncPlan} {context : Context} {calls earlier : List SyncCall} {known : DelegationCache}
  {s : SyncCall} {id : Word} {d : Delegation}

theorem find?_delegations (found : s.delegations.find? (·.id == id) = some d) :
    d ∈ s.delegations ∧ d.id = id := by
  have mine := List.find?_some found
  simp only [beq_iff_eq] at mine
  exact ⟨List.mem_of_find?_eq_some found, mine⟩

theorem lastStored_eq_some (found : lastStored calls id = some d) :
    ∃ later i rest, calls = later ++ i :: rest ∧ d ∈ i.delegations ∧ d.id = id := by
  induction calls with
  | nil => cases found
  | cons s earlier ih =>
    obtain found | ⟨-, found⟩ := Option.or_eq_some_iff.1 found
    · exact ⟨[], s, earlier, rfl, find?_delegations found⟩
    · obtain ⟨later, i, rest, rfl, member, mine⟩ := ih found
      exact ⟨s :: later, i, rest, rfl, member, mine⟩

theorem Returns.version_found {allows : (r : PartRequest) → SyncWorld → r.Answer → SyncWorld → Prop}
    {version : Version} {height : Nat} {time : Instant} {t : Tables} {summary : SyncSummary} {w : SyncWorld}
    (returned : Returns allows plan context version height time t known (.ok summary) w) :
    ∃ c, findContracts context version = .ok c := by
  generalize same : Except.ok summary = result at returned
  cases returned with
  | unknown => cases same
  | stopped => cases same
  | closed found _ _ => exact ⟨_, found⟩

/-- What is kept of a delegation is the snapshot that was stored last, but for its height. -/
theorem Syncs.kept (run : Syncs plan context calls known) (id : Word) :
    (known.find? id).map undated = (lastStored calls id).map undated := by
  induction run with
  | start => rfl
  | @next s earlier known _ returned ih =>
    obtain ⟨c, found⟩ := returned.version_found
    have recalls := returned.recalls found
    rw [lastStored]
    cases stored : s.delegations.find? (·.id == id) with
    | some d =>
      obtain ⟨member, rfl⟩ := find?_delegations stored
      obtain ⟨k, kept, same⟩ := recalls.kept d member
      rw [kept, same]
      rfl
    | none =>
      have others := List.find?_eq_none.1 stored
      rw [recalls.others id fun d member mine => others d member (beq_iff_eq.2 mine)]
      exact ih

theorem Syncs.comes {c : SyncContracts} (run : Syncs plan context (s :: earlier) known)
    (found : findContracts context s.version = .ok c) (member : d ∈ s.delegations) :
    recalled s.chain c.controller s.height (lastStored earlier d.id) d.id = .ok d := by
  cases run with
  | next run returned =>
    rw [← recalled_congr (run.kept d.id)]
    exact (returned.recalls found).comes d member

theorem Syncs.suffix (later : List SyncCall) (run : Syncs plan context (later ++ calls) known) :
    ∃ known', Syncs plan context calls known' := by
  induction later generalizing known with
  | nil => exact ⟨known, run⟩
  | cons s rest ih =>
    cases run with
    | next run _ => exact ih run

theorem Syncs.head_found (run : Syncs plan context (s :: earlier) known) :
    ∃ c, findContracts context s.version = .ok c := by
  cases run with
  | next _ returned => exact returned.version_found

theorem Syncs.unstamped (run : Syncs plan context calls known)
    (found : lastStored calls id = some d) : d.txHash = .zero := by
  induction calls generalizing known id d with
  | nil => cases found
  | cons s earlier ih =>
    obtain ⟨c, version_⟩ := run.head_found
    obtain found | ⟨-, found⟩ := Option.or_eq_some_iff.1 found
    · obtain ⟨member, rfl⟩ := find?_delegations found
      obtain ⟨-, ⟨k, kept, rfl⟩ | told_⟩ := recalled_ok (run.comes version_ member)
      · obtain ⟨_, rest⟩ := Syncs.suffix [s] run
        have zero : k.txHash = .zero := ih rest kept
        exact zero
      · exact (c.controller.delegation_unstamped _ _).told (congrArg Except.toOption told_)
    · obtain ⟨_, rest⟩ := Syncs.suffix [s] run
      exact ih rest found

theorem told_parts {chain : ChainAnswers} {c : ViewContract} {height : Nat} :
    told chain (c.delegation id height) = .ok d ↔ told chain (c.delegationState id height) = .ok d.state ∧
      ∃ r, told chain (c.delegationRecord id height) = .ok r ∧ d = { r with state := d.state } := by
  rw [told_delegation]
  cases told chain (c.delegationRecord id height) with
  | error stop => exact ⟨fun wrong => (nomatch wrong), fun ⟨_, _, wrong, _⟩ => (nomatch wrong)⟩
  | ok r =>
    cases told chain (c.delegationState id height) with
    | error stop => exact ⟨fun wrong => (nomatch wrong), fun ⟨wrong, _⟩ => (nomatch wrong)⟩
    | ok state =>
      constructor
      · intro same
        cases same
        exact ⟨rfl, r, rfl, rfl⟩
      · rintro ⟨same, r', record, rest⟩
        cases same
        cases record
        exact congrArg Except.ok rest.symm

/-- As long as one contract only was asked for a delegation, it comes out as the chain tells of it. -/
theorem Syncs.told_of_one {s : SyncCall} {earlier : List SyncCall} {known : DelegationCache}
    {d : Delegation} {c : SyncContracts} (run : Syncs plan context (s :: earlier) known)
    (steadfast : Steadfast context (s :: earlier)) (found : findContracts context s.version = .ok c)
    (member : d ∈ s.delegations)
    (one : ∀ i ∈ earlier, ∀ c', findContracts context i.version = .ok c' →
      (∃ e ∈ i.delegations, e.id = d.id) →
        c'.controller.binding.address = c.controller.binding.address) :
    told s.chain (c.controller.delegation d.id s.height) = .ok d := by
  obtain ⟨state, exact_⟩ := recalled_exact (run.comes found member)
  refine exact_.2 fun last stored same => ?_
  -- The last snapshot was stored by an earlier synchronisation, for which the contract told it; in the same
  -- stage it tells it still.
  obtain ⟨later, i, rest, rfl, member', mine⟩ := lastStored_eq_some stored
  obtain ⟨_, run'⟩ := Syncs.suffix (s :: later) run
  obtain ⟨c', found'⟩ := run'.head_found
  have among : i ∈ later ++ i :: rest := List.mem_append_right _ List.mem_cons_self
  have inside {j : SyncCall} (member : j ∈ i :: rest) : j ∈ s :: (later ++ i :: rest) :=
    List.mem_cons_of_mem _ (List.mem_append_right _ member)
  have address := one i among c' found' ⟨last, member', mine⟩
  have told_ : told i.chain (c'.controller.delegation last.id i.height) = .ok last := by
    refine Syncs.told_of_one run' (fun j first j' second => steadfast j (inside first) j' (inside second))
      found' member' fun j before c'' found'' stored' => ?_
    rw [address]
    exact one j (List.mem_append_right _ (List.mem_cons_of_mem _ before)) c'' found'' (mine ▸ stored')
  rw [mine] at told_
  obtain ⟨state', r, record, rest'⟩ := told_parts.1 told_
  have again := steadfast i (inside List.mem_cons_self) s List.mem_cons_self c' c found' found address
    d.id d.state r (same ▸ state') state record
  refine told_parts.2 ⟨same ▸ state, _, again, ?_⟩
  rw [rest']
termination_by earlier.length
decreasing_by
  subst_vars
  simp only [List.length_append, List.length_cons]
  omega

theorem Steadfast.suffix {later : List SyncCall} (steadfast : Steadfast context (later ++ calls)) :
    Steadfast context calls :=
  fun i first j second => steadfast i (List.mem_append_right _ first) j (List.mem_append_right _ second)

/-- Two synchronisations ask different contracts for delegations. -/
def Apart (context : Context) (i j : SyncCall) : Prop :=
  ∀ c c', findContracts context i.version = .ok c → findContracts context j.version = .ok c' →
    c.controller.binding.address ≠ c'.controller.binding.address

instance : Std.Symm (Apart context) :=
  ⟨fun _ _ apart c c' first second same => apart c' c second first same.symm⟩

theorem steadfast_of_apart (apart : calls.Pairwise (Apart context)) : Steadfast context calls := by
  intro i first j second c c' found found' same id state d _ _ record
  obtain rfl : i = j := by
    by_contra other
    exact apart.forall first second other c c' found found' same
  cases found.symm.trans found'
  obtain ⟨-, place⟩ := (c.controller.delegationRecord_consults i.height id).told
    (congrArg Except.toOption record)
  rw [record, ← place]

/-- What is stored of a delegation stands at the height, without a transaction and in the stage that the
contract of the version tells. It is the record that this contract tells, exactly if the snapshot that was
stored last is not in that stage or is this record but for its height. So it is when no other contract has
been asked for the delegation before. A synchroniser that keeps nothing yet stores that record. -/
theorem delegations_recalled {later : List SyncCall} {c : SyncContracts}
    (run : Syncs plan context calls known) (steadfast : Steadfast context calls)
    (among : calls = later ++ s :: earlier) (found : findContracts context s.version = .ok c)
    (member : d ∈ s.delegations) :
    let record := told s.chain (c.controller.delegation d.id s.height)
    d.height = s.height ∧ d.txHash = .zero ∧
      told s.chain (c.controller.delegationState d.id s.height) = .ok d.state ∧
      (record = .ok d ↔ ∀ last, lastStored earlier d.id = some last → last.state = d.state →
        record = .ok { last with height := s.height }) ∧
      ((∀ i ∈ earlier, ∀ c', findContracts context i.version = .ok c' →
        (∃ e ∈ i.delegations, e.id = d.id) →
          c'.controller.binding.address = c.controller.binding.address) → record = .ok d) ∧
      ∀ plan' time t summary w, Returns (Answers s.chain) plan' context s.version s.height time t .empty
        (.ok summary) w → ∀ d' ∈ savedDelegations w.written, d'.id = d.id → record = .ok d' := by
  intro record
  subst among
  obtain ⟨_, run⟩ := Syncs.suffix later run
  obtain ⟨state, exact_⟩ := recalled_exact (run.comes found member)
  have place : d.height = s.height := by
    cases run with
    | next _ returned => exact (recalled_place ((returned.recalls found).comes d member)).2
  have unstamped : d.txHash = .zero := by
    obtain ⟨-, ⟨k, kept, same⟩ | told_⟩ := recalled_ok (run.comes found member)
    · obtain ⟨_, rest⟩ := Syncs.suffix [s] run
      have zero : k.txHash = .zero := rest.unstamped kept
      rw [same]
      exact zero
    · exact (c.controller.delegation_unstamped _ _).told (congrArg Except.toOption told_)
  refine ⟨place, unstamped, state, exact_, run.told_of_one steadfast.suffix found member, ?_⟩
  -- Where nothing is kept, a delegation can come from the chain only.
  intro plan' time t summary w returned d' member' mine
  obtain ⟨-, ⟨k, wrong, -⟩ | told_⟩ := recalled_ok ((returned.recalls found).comes d' member')
  · cases wrong
  · rw [mine] at told_
    exact told_

end Histories

end EpochSync

section ById

open EpochSync

/-- A contract of a later version. -/
def laterVersion (b : Binding) : Binding := { b with version := ⟨"2.0.0"⟩ }

/-- Two versions, the delegations of which are with two contracts. -/
def twoControllers : Context where
  mode := .archive
  registry := { holdingContext.registry with
    byVersion := ((holdingContext.registry.byVersion.insert (.validatorService, ⟨"2.0.0"⟩)
      (laterVersion validatorBinding)).insert (.nodes, ⟨"2.0.0"⟩) (laterVersion nodeBinding)).insert
        (.delegationController, ⟨"2.0.0"⟩) { laterVersion delegationBinding with address := .ofWord 3 } }

def earlierContracts : SyncContracts :=
  ⟨⟨twoControllers, validatorBinding⟩, ⟨twoControllers, nodeBinding⟩, ⟨twoControllers, delegationBinding⟩⟩

def laterContracts : SyncContracts :=
  ⟨⟨twoControllers, laterVersion validatorBinding⟩, ⟨twoControllers, laterVersion nodeBinding⟩,
    ⟨twoControllers, { laterVersion delegationBinding with address := .ofWord 3 }⟩⟩

/-- A chain on which two contracts tell of two delegations with the id 0, both delegated. -/
def twoDelegations : ChainAnswers :=
  byId fun contract id =>
    if id = 0 then
      if contract = .zero then [4, 1, 100, 0, 0, 0, 0, 256, 0].flatMap Abi.wordOf
      else if contract = .ofWord 3 then [4, 2, 200, 0, 0, 0, 0, 256, 0].flatMap Abi.wordOf
      else []
    else []

/-- One worker synchronises two versions, one after the other. -/
def syncTwice (first second : Version × SyncContracts) : Option (SyncCall × SyncCall) :=
  let turns := (List.range 60).map (· % 3)
  (runInTurns twoDelegations ⟨1, 10⟩ first.2 20 (.ofSeconds 20) .empty .empty turns).bind fun ran =>
    (runInTurns twoDelegations ⟨1, 10⟩ second.2 30 (.ofSeconds 30) ran.2.tables ran.2.known turns).map
      fun again => (⟨twoDelegations, second.1, 30, .ofSeconds 30, ran.2.tables, again.1, again.2⟩,
        ⟨twoDelegations, first.1, 20, .ofSeconds 20, .empty, ran.1, ran.2⟩)

theorem syncs_of_twice {first second : Version × SyncContracts} {calls : SyncCall × SyncCall}
    (twice : syncTwice first second = some calls)
    (found : findContracts twoControllers first.1 = .ok first.2)
    (found' : findContracts twoControllers second.1 = .ok second.2) :
    Syncs ⟨1, 10⟩ twoControllers [calls.1, calls.2] calls.1.after.known ∧
      (calls.1.chain = twoDelegations ∧ calls.1.version = second.1 ∧ calls.1.height = 30) ∧
      calls.2.chain = twoDelegations ∧ calls.2.version = first.1 := by
  unfold syncTwice at twice
  obtain ⟨⟨summary, w⟩, ran, again⟩ := Option.bind_eq_some_iff.1 twice
  obtain ⟨⟨summary', w'⟩, ran', rfl⟩ := Option.map_eq_some_iff.1 again
  refine ⟨?_, ⟨rfl, rfl, rfl⟩, rfl, rfl⟩
  exact .next (.next .start (returns_of_turns found ran).weaken) (returns_of_turns found' ran').weaken

/-- The delegation of the earlier version, as it is when it is stored again. -/
def heldAgain : Delegation := { heldDelegation 0 with height := 30 }

set_option maxRecDepth 100000 in
theorem told_earlier (id : Word) (height : Nat) :
    told twoDelegations (earlierContracts.controller.delegationRecord id height) =
      if id = 0 then .ok { heldDelegation id with state := .unknown, height } else .error .empty := by
  rw [twoDelegations, (delegationRecord_alike _ _ _ _).told]
  split
  · cases height <;> rfl
  · cases height <;> rfl

/-- A version that is synchronised twice: the delegation comes out of what is kept, as the chain tells it. -/
theorem delegations_recalled_twice :
    ∃ second first d, Syncs ⟨1, 10⟩ twoControllers [second, first] second.after.known ∧
      Steadfast twoControllers [second, first] ∧ d ∈ second.delegations ∧ d.height = 30 ∧
      (∃ e ∈ first.delegations, e.id = d.id ∧ e.state = d.state) ∧
      told second.chain (earlierContracts.controller.delegation d.id second.height) = .ok d := by
  have found : findContracts twoControllers ⟨"1.0.0"⟩ = .ok earlierContracts := rfl
  have turns : (syncTwice (⟨"1.0.0"⟩, earlierContracts) (⟨"1.0.0"⟩, earlierContracts)).map
      (fun calls => (calls.1.delegations, calls.2.delegations)) =
        some ([heldAgain], [heldDelegation 0]) := by decide +kernel
  obtain ⟨calls, twice, stored⟩ := Option.map_eq_some_iff.1 turns
  obtain ⟨stored, stored'⟩ := Prod.mk.inj stored
  obtain ⟨run, ⟨chain, version, -⟩, chain', version'⟩ := syncs_of_twice twice found found
  have both : ∀ i ∈ [calls.1, calls.2], i.chain = twoDelegations ∧ i.version = ⟨"1.0.0"⟩ :=
    List.forall_mem_cons.2 ⟨⟨chain, version⟩, List.forall_mem_singleton.2 ⟨chain', version'⟩⟩
  have steadfast : Steadfast twoControllers [calls.1, calls.2] := by
    intro i first j second c c' found₁ found₂ _ id state d _ _ record
    rw [(both i first).2] at found₁
    rw [(both j second).2] at found₂
    cases found.symm.trans found₁
    cases found.symm.trans found₂
    rw [(both i first).1, told_earlier] at record
    rw [(both j second).1, told_earlier]
    split at record
    next zero =>
      cases record
      rw [if_pos zero]
    next => cases record
  have member : heldAgain ∈ calls.1.delegations := by
    rw [stored]
    exact List.mem_singleton_self _
  have found_ : findContracts twoControllers calls.1.version = .ok earlierContracts := by
    rw [version]
    exact found
  have among : [calls.1, calls.2] = [] ++ calls.1 :: [calls.2] := rfl
  obtain ⟨-, -, -, -, one, -⟩ := delegations_recalled run steadfast among found_ member
  refine ⟨calls.1, calls.2, _, run, steadfast, member, rfl, ⟨heldDelegation 0, ?_, rfl, rfl⟩, ?_⟩
  · rw [stored']
    exact List.mem_singleton_self _
  · refine one fun i before c' found' _ => ?_
    rw [(both i (List.mem_cons_of_mem _ before)).2] at found'
    cases found.symm.trans found'
    rfl

/-- After one version was synchronised, a delegation of another one with the same id and in the same stage
comes out as that of the first. -/
theorem delegations_recalled_crossed :
    ∃ second first d, Syncs ⟨1, 10⟩ twoControllers [second, first] second.after.known ∧
      Steadfast twoControllers [second, first] ∧
      findContracts twoControllers second.version = .ok laterContracts ∧ d ∈ second.delegations ∧
      d.validatorId = 1 ∧ d.amount = 100 ∧
      told second.chain (laterContracts.controller.delegation d.id second.height) =
        .ok { d with validatorId := 2, amount := 200 } := by
  have found : findContracts twoControllers ⟨"1.0.0"⟩ = .ok earlierContracts := rfl
  have found' : findContracts twoControllers ⟨"2.0.0"⟩ = .ok laterContracts := rfl
  have turns : (syncTwice (⟨"1.0.0"⟩, earlierContracts) (⟨"2.0.0"⟩, laterContracts)).map
      (fun calls => calls.1.delegations) = some [heldAgain] := by
    decide +kernel
  obtain ⟨calls, twice, stored⟩ := Option.map_eq_some_iff.1 turns
  obtain ⟨run, ⟨chain, version, height⟩, chain', version'⟩ := syncs_of_twice twice found found'
  have steadfast : Steadfast twoControllers [calls.1, calls.2] := by
    refine steadfast_of_apart (List.pairwise_pair.2 fun c c' first second => ?_)
    rw [version] at first
    rw [version'] at second
    cases found'.symm.trans first
    cases found.symm.trans second
    decide
  refine ⟨calls.1, calls.2, heldAgain, run, steadfast, ?_, ?_, rfl, rfl, ?_⟩
  · rw [version]
    exact found'
  · rw [stored]
    exact List.mem_singleton_self _
  · rw [chain, height]
    decide +kernel

end ById

end StakeIndex
