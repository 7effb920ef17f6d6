import StakeIndex.Proofs.Reorder
import StakeIndex.Proofs.Sums

/-!
Batches of delegations that workers share. A batch belongs to the worker that claims it, so no id is read
twice; and once a worker has come upon the end, all batches up to that end are claimed, and each worker goes
through its batch before it stops.
-/
namespace StakeIndex

open Dialogue Job

section Walks

variable {α : Type} {read : Nat → Except Stop α} {left id : Nat} {found : List α} {ended : Bool}

theorem Walk.length_le (walk : Walk read left id found ended) : found.length ≤ left := by
  induction walk with
  | full => exact Nat.le_refl _
  | ended => exact Nat.zero_le _
  | next _ _ ih => exact Nat.succ_le_succ ih

/-- A walk that does not come to an end goes through all ids. -/
theorem Walk.stops (walk : Walk read left id found ended) (short : found.length < left) :
    ended = true ∧ read (id + found.length) = .error .empty := by
  induction walk with
  | full => exact absurd short (Nat.not_lt_zero _)
  | ended left there => exact ⟨rfl, there⟩
  | @next id left a found ended _ _ ih =>
    obtain ⟨rfl, there⟩ := ih (Nat.lt_of_succ_lt_succ short)
    have place : id + (a :: found).length = id + 1 + found.length := by
      rw [List.length_cons]
      omega
    exact ⟨rfl, place ▸ there⟩

theorem Walk.short (walk : Walk read left id found true) : found.length < left := by
  generalize at_end : true = ended at walk
  induction walk with
  | full => cases at_end
  | ended => exact Nat.succ_pos _
  | next _ _ ih => exact Nat.succ_lt_succ (ih at_end)

theorem Walk.mem (walk : Walk read left id found ended) {a : α} (member : a ∈ found) :
    ∃ i, id ≤ i ∧ i < id + found.length ∧ read i = .ok a := by
  induction walk with
  | full => cases member
  | ended => cases member
  | @next id left b found ended there _ ih =>
    rw [List.length_cons]
    obtain rfl | member := List.mem_cons.1 member
    · exact ⟨id, Nat.le_refl _, by omega, there⟩
    · obtain ⟨i, from_, below, there⟩ := ih member
      exact ⟨i, by omega, by omega, there⟩

theorem Walk.holds (walk : Walk read left id found ended) {i : Nat} (from_ : id ≤ i)
    (below : i < id + found.length) : ∃ a ∈ found, read i = .ok a := by
  induction walk with
  | full =>
    simp only [List.length_nil] at below
    omega
  | ended =>
    simp only [List.length_nil] at below
    omega
  | @next id left b found ended there _ ih =>
    rw [List.length_cons] at below
    by_cases first : i = id
    · exact ⟨b, List.mem_cons_self, first ▸ there⟩
    · obtain ⟨a, member, there⟩ := ih (by omega) (by omega)
      exact ⟨a, List.mem_cons_of_mem _ member, there⟩

theorem Walk.covers (walk : Walk read left id found ended) {i : Nat} (from_ : id ≤ i)
    (below : i < id + left) (there : ∀ j, id ≤ j → j ≤ i → read j ≠ .error .empty) :
    ∃ a ∈ found, read i = .ok a := by
  refine walk.holds from_ (Nat.lt_of_not_le fun beyond => ?_)
  have short : found.length < left := by omega
  exact there _ (Nat.le_add_right ..) beyond (walk.stops short).2

theorem Walk.ids (walk : Walk read left id found ended) {key : α → Nat}
    (keys : ∀ i a, i < id + left → read i = .ok a → key a = i) :
    found.map key = List.range' id found.length := by
  induction walk with
  | full => rfl
  | ended => rfl
  | @next id left a found ended there _ ih =>
    rw [List.map_cons, List.length_cons, List.range'_succ, keys id a (by omega) there,
      ih fun i b below => keys i b (by omega)]

end Walks

namespace EpochSync

section Intervals

variable {size : Nat}

theorem batch_end (size n : Nat) :
    batchStart size n + batchLength size n = min (batchStart size n + size) topHeight := by
  have : batchStart size n ≤ topHeight := Nat.min_le_right ..
  unfold batchLength
  omega

theorem batch_apart {n m : Nat} (before : n < m) :
    batchStart size n + batchLength size n ≤ batchStart size m := by
  have next : n * size + size ≤ m * size := by
    rw [← Nat.succ_mul]
    exact Nat.mul_le_mul_right size before
  rw [batch_end]
  unfold batchStart
  omega

theorem batch_of (positive : 0 < size) {i : Nat} (low : i < topHeight) :
    batchStart size (i / size) ≤ i ∧ i < batchStart size (i / size) + batchLength size (i / size) := by
  have from_ : i / size * size ≤ i := Nat.div_mul_le_self i size
  have below : i < i / size * size + size := Nat.lt_div_mul_add positive
  rw [batch_end]
  unfold batchStart
  omega

theorem batch_before (positive : 0 < size) {i e n : Nat} (low : i ≤ e)
    (inside : e < batchStart size n + batchLength size n) : i / size ≤ n := by
  have below : i < (n + 1) * size := by
    rw [Nat.succ_mul]
    rw [batch_end] at inside
    unfold batchStart at inside
    omega
  exact Nat.le_of_lt_succ (Nat.div_lt_of_lt_mul (Nat.mul_comm .. ▸ below))

end Intervals

/-- The batches that workers have shared: the first ones, each once, and one of them came to the end. -/
structure Shares (read : Nat → Except Stop Delegation) (size : Nat) (turns : List Turn) : Prop where
  walks : ∀ turn ∈ turns, turn.Walks read size
  claimed : (turns.map (·.batch)).Perm (List.range turns.length)
  ended : ∃ turn ∈ turns, turn.ended

section Sharing

variable {read : Nat → Except Stop Delegation} {size : Nat} {turns : List Turn}

/-- All delegations that workers have found. -/
def allFound (turns : List Turn) : List Delegation := turns.flatMap (·.found)

theorem allFound_flatten (shared : List (List Turn)) :
    (shared.map allFound).flatten = allFound shared.flatten := by
  induction shared with
  | nil => rfl
  | cons turns rest ih =>
    rw [List.map_cons, List.flatten_cons, List.flatten_cons, ih, allFound, allFound, allFound,
      List.flatMap_append]

theorem Turn.Walks.inside {turn : Turn} (walks : turn.Walks read size) {i : Nat}
    (below : i < batchStart size turn.batch + turn.found.length) :
    i < batchStart size turn.batch + batchLength size turn.batch ∧ i < topHeight := by
  have length := Walk.length_le walks
  have := batch_end size turn.batch
  omega

namespace Shares

variable (shares : Shares read size turns)
include shares

/-- Every delegation that is found stands in a batch, and there is one under each id before it in its
batch. -/
theorem mem {d : Delegation} (member : d ∈ allFound turns) :
    ∃ n i, batchStart size n ≤ i ∧ i < batchStart size n + batchLength size n ∧ i < topHeight ∧
      read i = .ok d ∧ ∀ j, batchStart size n ≤ j → j ≤ i → ∃ e ∈ allFound turns, read j = .ok e := by
  obtain ⟨turn, taken, member⟩ := List.mem_flatMap.1 member
  have walk := shares.walks turn taken
  obtain ⟨i, from_, below, there⟩ := Walk.mem walk member
  obtain ⟨inside, low⟩ := walk.inside below
  refine ⟨turn.batch, i, from_, inside, low, there, fun j from_ before => ?_⟩
  obtain ⟨e, found, there⟩ := Walk.holds walk from_ (Nat.lt_of_le_of_lt before below)
  exact ⟨e, List.mem_flatMap.2 ⟨turn, taken, found⟩, there⟩

theorem exists_end : ∃ turn ∈ turns, ∃ e, e < batchStart size turn.batch + batchLength size turn.batch ∧
    e < topHeight ∧ read e = .error .empty := by
  obtain ⟨⟨n, found, ended⟩, taken, rfl⟩ := shares.ended
  have walk : Walk read (batchLength size n) (batchStart size n) found true := shares.walks _ taken
  have short := walk.short
  have := batch_end size n
  exact ⟨_, taken, batchStart size n + found.length, by dsimp only; omega, by omega, (walk.stops short).2⟩

/-- Every id before the first one that the chain does not know is found. -/
theorem covers (positive : 0 < size) {i : Nat} (there : ∀ j ≤ i, read j ≠ .error .empty) :
    ∃ d ∈ allFound turns, read i = .ok d := by
  obtain ⟨last, taken, e, inside, low, nothing⟩ := shares.exists_end
  have before : i < e := Nat.lt_of_not_le fun beyond => there e beyond nothing
  have claimed {n : Nat} : n ∈ turns.map (·.batch) ↔ n < turns.length :=
    shares.claimed.mem_iff.trans List.mem_range
  have counted : last.batch < turns.length := claimed.1 (List.mem_map_of_mem taken)
  obtain ⟨turn, taken, same⟩ := List.mem_map.1
    (claimed.2 (Nat.lt_of_le_of_lt (batch_before positive before.le inside) counted))
  obtain ⟨from_, below⟩ := batch_of positive (before.trans low)
  rw [← same] at from_ below
  obtain ⟨d, found, there⟩ := Walk.covers (shares.walks turn taken) from_ below fun j _ => there j
  exact ⟨d, List.mem_flatMap.2 ⟨turn, taken, found⟩, there⟩

/-- No id is found twice, when each delegation has the id under which it stands. -/
theorem nodup {key : Delegation → Nat} (keys : ∀ i d, i < topHeight → read i = .ok d → key d = i) :
    ((allFound turns).map key).Nodup := by
  have ids (turn : Turn) (taken : turn ∈ turns) :
      turn.found.map key = List.range' (batchStart size turn.batch) turn.found.length := by
    refine Walk.ids (shares.walks turn taken) fun i d below there => keys i d ?_ there
    have := batch_end size turn.batch
    omega
  rw [allFound, List.map_flatMap, List.nodup_flatMap]
  constructor
  · intro turn taken
    rw [ids turn taken]
    exact List.nodup_range'
  · have distinct : (turns.map (·.batch)).Nodup := shares.claimed.nodup_iff.2 List.nodup_range
    refine List.Pairwise.imp_of_mem (fun {a b} first second apart => ?_) (List.pairwise_map.1 distinct)
    -- Batches with different numbers do not overlap, and what is found stands inside of them.
    have one := Walk.length_le (shares.walks a first)
    have other := Walk.length_le (shares.walks b second)
    change (a.found.map key).Disjoint (b.found.map key)
    rw [ids a first, ids b second]
    intro i here there
    rw [List.mem_range'_1] at here there
    obtain before | before := Nat.lt_or_gt_of_ne apart
    · have := @batch_apart size _ _ before
      omega
    · have := @batch_apart size _ _ before
      omega

section First

variable (positive : 0 < size) {key : Delegation → Nat}
  (keys : ∀ i d, i < topHeight → read i = .ok d → key d = i) {n : Nat}
  (first : ∀ i < topHeight, read i = .error .empty ↔ n ≤ i)
include first

theorem first_lt : n < topHeight := by
  obtain ⟨-, -, e, -, low, nothing⟩ := shares.exists_end
  exact Nat.lt_of_le_of_lt ((first e low).1 nothing) low

include positive

theorem first_found {i : Nat} (below : i < n) : ∃ d ∈ allFound turns, read i = .ok d := by
  have low := shares.first_lt first
  refine shares.covers positive fun j before nothing => ?_
  have := (first j (by omega)).1 nothing
  omega

include keys

theorem first_keys :
    ((List.range n).filterMap fun i => (read i).toOption).map key = List.range n := by
  rw [List.map_filterMap]
  refine Eq.trans (List.filterMap_congr fun i member => ?_) List.filterMap_some
  have below := List.mem_range.1 member
  obtain ⟨d, -, there⟩ := shares.first_found positive first below
  rw [there, ← keys i d (below.trans (shares.first_lt first)) there]
  rfl

/-- Exactly the delegations that the chain knows are found, whoever found them. -/
theorem perm_of_first :
    (allFound turns).Perm ((List.range n).filterMap fun i => (read i).toOption) := by
  have distinct : ((List.range n).filterMap fun i => (read i).toOption).Nodup := by
    refine List.Nodup.of_map key ?_
    rw [shares.first_keys positive keys first]
    exact List.nodup_range
  rw [List.perm_ext_iff_of_nodup (shares.nodup keys).of_map distinct]
  intro d
  rw [List.mem_filterMap]
  constructor
  · intro member
    obtain ⟨-, i, -, -, low, there, -⟩ := shares.mem member
    refine ⟨i, List.mem_range.2 (Nat.lt_of_not_le fun beyond => ?_), by rw [there]; rfl⟩
    cases there.symm.trans ((first i low).2 beyond)
  · rintro ⟨i, member, there⟩
    obtain ⟨d', taken, there'⟩ := shares.first_found positive first (List.mem_range.1 member)
    rw [there'] at there
    cases there
    exact taken

end First

end Shares

end Sharing

section Pool

variable {chain : ChainAnswers} {c : ViewContract} {height : Nat} {known : DelegationCache}

theorem ends_map {α β : Type} {p : Protocol PartRequest.Answer} {part : Part α} (f : α → β)
    {good : List Mark → α → Prop} {bad : List Mark → Stop → Prop}
    (ends : part.run.Obeys p (Ends chain height good bad)) :
    (f <$> part).run.Obeys p
      (Ends chain height (fun left b => ∃ a, good left a ∧ b = f a) bad) := by
  rw [map_eq_pure_bind]
  refine ends_bind ends (fun left a ended => ends_pure ⟨a, ?_, rfl⟩) fun _ _ failed => failed
  rwa [List.append_nil]

variable (chain c height known) in
/-- What is promised of a worker. -/
def workerPromise (size : Nat) : Promise PartRequest.Answer (Except Stop PartResult) :=
  Ends chain height
    (fun left result => ∃ summed, (∃ turns : List Turn,
      (∀ turn ∈ turns, turn.Walks (delegationAt chain c height known) size) ∧
        left = turns.flatMap Turn.left ++ [.sawEnd] ∧ summed = summedUp (allFound turns)) ∧
          result = .delegations summed)
    fun left stop => Fails (delegationAt chain c height known) stop ∨
      stop = .crashed ∧ registerSize ≤ (left.filterMap Mark.claimed?).length

theorem batch_pos (plan : SyncPlan) : 0 < max plan.batchSize 1 :=
  Nat.lt_of_lt_of_le Nat.one_pos (Nat.le_max_right ..)

theorem workers_pos (plan : SyncPlan) : 0 < max plan.workers 1 :=
  Nat.lt_of_lt_of_le Nat.one_pos (Nat.le_max_right ..)

theorem workers_obey (plan : SyncPlan) : (workers plan c height).Forall₂
    (fun d promise => d.Obeys (partProtocol chain c height known) promise)
    (List.replicate (max plan.workers 1) (workerPromise chain c height known (max plan.batchSize 1))) :=
  forall₂_replicate (ends_map _ (ends_worker _ _ _)) _

/-- Workers that are all done have claimed batches, gone through them and seen the end; and what they have
summed up comes to the sum over all that they found. -/
theorem turns_of_workers {size : Nat} {sums : List (Nat × StakeByValidator)}
    {contracts : List (Contract PartRequest.Answer (Except Stop PartResult))}
    (promised : ∀ contract ∈ contracts, contract.promise = workerPromise chain c height known size)
    (fulfilled : (sums.map fun summed => Except.ok (PartResult.delegations summed)).Forall₂
      (fun result contract => contract.promise contract.past result) contracts) :
    ∃ turns : List Turn, (∀ turn ∈ turns, turn.Walks (delegationAt chain c height known) size) ∧
      (marks (contracts.flatMap (·.past))).Perm
        (turns.flatMap Turn.left ++ List.replicate contracts.length .sawEnd) ∧
      mergeAll sums = summedUp (allFound turns) := by
  suffices ∃ shared : List (List Turn),
      (∀ turns ∈ shared, ∀ turn ∈ turns, turn.Walks (delegationAt chain c height known) size) ∧
      (marks (contracts.flatMap (·.past))).Perm
        (shared.flatten.flatMap Turn.left ++ List.replicate contracts.length .sawEnd) ∧
      sums = (shared.map allFound).map summedUp by
    obtain ⟨shared, walks, order, rfl⟩ := this
    refine ⟨shared.flatten, fun turn member => ?_, order, ?_⟩
    · obtain ⟨turns, among, member⟩ := List.mem_flatten.1 member
      exact walks turns among turn member
    · rw [mergeAll_eq, allFound_flatten]
  induction sums generalizing contracts with
  | nil =>
    cases fulfilled
    exact ⟨[], fun _ member => (nomatch member), .refl _, rfl⟩
  | cons summed sums ih =>
    cases fulfilled with
    | @cons _ contract _ rest mine others =>
      obtain ⟨promise, promises⟩ := List.forall_mem_cons.1 promised
      rw [promise] at mine
      obtain ⟨_, ⟨turns, walks, left, rfl⟩, same⟩ := mine
      cases same
      obtain ⟨shared, walks', order, rfl⟩ := ih promises others
      refine ⟨turns :: shared, List.forall_mem_cons.2 ⟨walks, walks'⟩, ?_, rfl⟩
      rw [List.flatMap_cons, marks_append, left, List.flatten_cons, List.flatMap_append,
        List.length_cons, List.replicate_succ, List.append_assoc, List.append_assoc]
      refine List.Perm.append_left _ ?_
      rw [List.singleton_append]
      exact (order.cons _).trans List.perm_middle.symm

theorem claimed_stored (found : List Delegation) (ended : Bool) :
    (Turn.stored found ended).filterMap Mark.claimed? = [] := by
  rw [Turn.stored, List.filterMap_append, List.filterMap_map]
  cases ended <;> simp [Function.comp_def, Mark.claimed?]

theorem claimed_left (turns : List Turn) :
    (turns.flatMap Turn.left).filterMap Mark.claimed? = turns.map (·.batch) := by
  induction turns with
  | nil => rfl
  | cons turn rest ih =>
    have first : turn.left.filterMap Mark.claimed? =
        turn.batch :: (Turn.stored turn.found turn.ended).filterMap Mark.claimed? := rfl
    rw [List.flatMap_cons, List.filterMap_append, ih, first, claimed_stored]
    rfl

theorem wrote_left (turns : List Turn) :
    (turns.flatMap Turn.left).filterMap Mark.wrote? = (allFound turns).map .saveDelegation := by
  have stored (found : List Delegation) (ended : Bool) :
      (Turn.stored found ended).filterMap Mark.wrote? = found.map .saveDelegation := by
    rw [Turn.stored, List.filterMap_append, List.filterMap_map]
    cases ended <;> simp [Function.comp_def, Mark.wrote?]
  induction turns with
  | nil => rfl
  | cons turn rest ih =>
    have first : turn.left.filterMap Mark.wrote? =
        (Turn.stored turn.found turn.ended).filterMap Mark.wrote? := rfl
    rw [List.flatMap_cons, List.filterMap_append, ih, first, stored, allFound, allFound,
      List.flatMap_cons, List.map_append]

section Left

variable {read : Nat → Except Stop Delegation} {size sawEnds : Nat} {turns : List Turn} {t : Tables}
  {w : SyncWorld} {left others : List Mark} (leaves : Leaves (.start t known) left w)
  (order : left.Perm (others ++ (turns.flatMap Turn.left ++ List.replicate sawEnds .sawEnd)))
  (working : 0 < sawEnds) (beside : ∀ m ∈ others, ∃ r, m = .wrote r)
include leaves order working beside

/-- Some turn has come upon the end, since no worker is done before it sees that. -/
theorem exists_ended : ∃ turn ∈ turns, turn.ended = true := by
  have seen : .sawEnd ∈ left := by
    refine order.mem_iff.2 (List.mem_append_right _ (List.mem_append_right _ ?_))
    exact List.mem_replicate.2 ⟨working.ne', rfl⟩
  obtain wrong | ended := leaves.saw seen
  · cases wrong
  obtain ended | ended := List.mem_append.1 (order.mem_iff.1 ended)
  · obtain ⟨r, wrong⟩ := beside _ ended
    cases wrong
  obtain ended | ended := List.mem_append.1 ended
  · obtain ⟨⟨n, found, atEnd⟩, taken, ended⟩ := List.mem_flatMap.1 ended
    refine ⟨_, taken, ?_⟩
    cases atEnd with
    | true => rfl
    | false => simp [Turn.left, Turn.stored] at ended
  · cases List.eq_of_mem_replicate ended

/-- What is left behind when all workers are done, besides snapshots that other parts stored. -/
theorem shares_of_marks (walks : ∀ turn ∈ turns, turn.Walks read size) :
    Shares read size turns ∧ w.tables = t.performAll w.written ∧
      w.written.Perm (others.filterMap Mark.wrote? ++ (allFound turns).map .saveDelegation) := by
  have silent {β : Type} {f : Mark → Option β} (none_ : f .sawEnd = none) :
      (List.replicate sawEnds Mark.sawEnd).filterMap f = [] := by
    rw [List.filterMap_eq_nil_iff]
    intro m member
    rw [List.eq_of_mem_replicate member, none_]
  have stores : others.filterMap Mark.claimed? = [] := by
    rw [List.filterMap_eq_nil_iff]
    intro m member
    obtain ⟨r, rfl⟩ := beside m member
    rfl
  have claims := order.filterMap Mark.claimed?
  rw [List.filterMap_append, List.filterMap_append, stores, claimed_left, silent rfl, leaves.claimed,
    List.nil_append, List.append_nil] at claims
  have count : w.claimed = turns.length := by
    have same := claims.length_eq
    rw [List.length_range', List.length_map] at same
    exact same
  refine ⟨⟨walks, ?_, exists_ended leaves order working beside⟩, ?_, ?_⟩
  · rw [List.range_eq_range', ← count]
    exact claims.symm
  · rw [leaves.tables, leaves.written]
    rfl
  · have wrote := order.filterMap Mark.wrote?
    rw [List.filterMap_append, List.filterMap_append, wrote_left, silent rfl, List.append_nil] at wrote
    rw [leaves.written]
    exact wrote

end Left

theorem delegationAt_id {i : Nat} {d : Delegation}
    (there : delegationAt chain c height known i = .ok d) : d.id = .ofNat i :=
  (recalled_place there).1

theorem delegationAt_key {i : Nat} {d : Delegation} (low : i < topHeight)
    (there : delegationAt chain c height known i = .ok d) : d.id.toNat = i := by
  rw [delegationAt_id there]
  refine Nat.mod_eq_of_lt (low.trans ?_)
  unfold topHeight
  omega

/-- The delegations that are stored with some requests. -/
def savedDelegations (written : List StoreRequest) : List Delegation :=
  written.filterMap StoreRequest.delegation?

theorem savedDelegations_map (ds : List Delegation) :
    savedDelegations (ds.map .saveDelegation) = ds := by
  rw [savedDelegations, List.filterMap_map]
  exact List.filterMap_some

theorem saved_of_perm {written : List StoreRequest} {ds : List Delegation}
    (order : written.Perm (ds.map .saveDelegation)) :
    written = (savedDelegations written).map .saveDelegation ∧ (savedDelegations written).Perm ds := by
  have only : ∀ r ∈ written, ∃ d, r = .saveDelegation d := by
    intro r member
    obtain ⟨d, -, rfl⟩ := List.mem_map.1 (order.mem_iff.1 member)
    exact ⟨d, rfl⟩
  constructor
  · clear order
    induction written with
    | nil => rfl
    | cons r rest ih =>
      obtain ⟨⟨d, rfl⟩, others⟩ := List.forall_mem_cons.1 only
      exact congrArg (_ :: ·) (ih others)
  · have same := order.filterMap StoreRequest.delegation?
    rwa [← savedDelegations, ← savedDelegations, savedDelegations_map] at same

/-- Workers that have all ended without an error, however many they are, however large their batches and
however their requests are interleaved: no id is stored twice, every id below the first one that the chain
does not know is stored, and what is stored under an id the chain knows, like all ids before it in its
batch. What the workers return counts the stored delegations, and sums up those that are staked. So where
the chain knows the first ids and no others, all workers together come to the same result. -/
theorem workers_save {plan : SyncPlan} {t : Tables} {sums : List (Nat × StakeByValidator)}
    {w : SyncWorld} (run : Interleaved (Answers chain) (workers plan c height) (.start t known)
      (sums.map fun summed => .ok (.delegations summed)) w) :
    let size := max plan.batchSize 1
    let read := delegationAt chain c height known
    let saved := savedDelegations w.written
    w.tables = t.performAll w.written ∧ w.written = saved.map .saveDelegation ∧
      (saved.map (·.id)).Nodup ∧
      (∀ i, (∀ j ≤ i, read j ≠ .error .empty) → ∃ d ∈ saved, d.id = .ofNat i ∧ read i = .ok d) ∧
      (∀ d ∈ saved, ∃ n i, batchStart size n ≤ i ∧ i < batchStart size n + batchLength size n ∧
        d.id = .ofNat i ∧ read i = .ok d ∧ ∀ j, batchStart size n ≤ j → j ≤ i → ∃ e, read j = .ok e) ∧
      (mergeAll sums).1 = saved.length ∧
      (∀ id, (stakeIn (mergeAll sums).2 id).toNat =
        min (((saved.filter (counts id)).map (·.amount.toNat)).sum) (2 ^ 256 - 1)) ∧
      ∀ n, (∀ i < topHeight, read i = .error .empty ↔ n ≤ i) →
        let first := (List.range n).filterMap fun i => (read i).toOption
        saved.Perm first ∧ first.length = n ∧ mergeAll sums = summedUp first := by
  intro size read saved
  obtain ⟨merged, contracts, promises, fulfilled, order, along, -, -⟩ :=
    run.fulfils answers_serves (workers_obey plan) (faithful_start chain c height known t)
  obtain ⟨count, promised⟩ := List.eq_replicate_iff.1 promises
  rw [List.length_map] at count
  rw [List.forall_mem_map] at promised
  obtain ⟨turns, walks, left, summed⟩ := turns_of_workers promised fulfilled
  have positive : 0 < size := batch_pos plan
  have working : 0 < contracts.length :=
    count ▸ workers_pos plan
  have marked : (marks merged).Perm
      ([] ++ (turns.flatMap Turn.left ++ List.replicate contracts.length .sawEnd)) :=
    (order.filterMap mark?).trans left
  obtain ⟨shares, tables, written⟩ := shares_of_marks (along_leaves along) marked working
    (fun _ member => absurd member List.not_mem_nil) walks
  obtain ⟨only, found⟩ := saved_of_perm written
  have keys (i : Nat) (d : Delegation) (low : i < topHeight) (there : read i = .ok d) :
      d.id.toNat = i := delegationAt_key low there
  refine ⟨tables, only, ?_, ?_, ?_, ?_, ?_, ?_⟩
  · have distinct := (found.map (·.id.toNat)).nodup_iff.2 (shares.nodup keys)
    refine List.Nodup.of_map Word.toNat ?_
    rwa [List.map_map]
  · intro i there
    obtain ⟨d, member, known⟩ := shares.covers positive there
    exact ⟨d, found.mem_iff.2 member, delegationAt_id known, known⟩
  · intro d member
    obtain ⟨n, i, from_, inside, -, there, before⟩ := shares.mem (found.mem_iff.1 member)
    refine ⟨n, i, from_, inside, delegationAt_id there, there, fun j from_ low => ?_⟩
    obtain ⟨e, -, there⟩ := before j from_ low
    exact ⟨e, there⟩
  · rw [summed, summedUp_eq, found.length_eq]
  · intro id
    rw [summed, summedUp_eq, stakeIn_eq, Word.toNat_clamp, ((found.filter _).map _).sum_nat]
  · intro n first_
    have order := shares.perm_of_first positive keys first_
    refine ⟨found.trans order, ?_, summed.trans (summedUp_perm order)⟩
    have ids := congrArg List.length (shares.first_keys positive keys first_)
    rwa [List.length_map, List.length_range] at ids

/-- What a worker has returned. -/
def summed? : Except Stop PartResult → Option (Nat × StakeByValidator)
  | .ok (.delegations summed) => some summed
  | _ => none

theorem summed_all {results : List (Except Stop PartResult)}
    (all : results.all fun result => (summed? result).isSome) :
    (results.filterMap summed?).map (fun summed => .ok (.delegations summed)) = results := by
  induction results with
  | nil => rfl
  | cons result rest ih =>
    rw [List.all_cons, Bool.and_eq_true] at all
    match result with
    | .ok (.delegations summed) => exact congrArg (_ :: ·) (ih all.2)

/-- A chain with a number of delegations, of 100 each to validator 1. -/
def firstDelegations (n : Nat) : ChainAnswers
  | .call block contract input =>
    if (Word.ofBytes (input.drop 4)).toNat < n then evenChain (.call block contract input) else .ok []
  | r => evenChain r

/-- Two workers that take turns, with two ids in a batch: one finds the first two of three delegations and
the end in its next batch, the other one finds the third delegation and the end behind it. -/
theorem workers_save_in_turn :
    let c : ViewContract := ⟨delegationContext, delegationBinding⟩
    let pool := workers ⟨2, 2⟩ c 20
    let turns := (List.range 40).map (· % 2)
    let finish := turns.foldl (advance (replying (firstDelegations 3))) (pool, .start .empty .empty)
    let sums := (finish.1.filterMap result?).filterMap summed?
    Interleaved (Answers (firstDelegations 3)) pool (.start .empty .empty)
        (sums.map fun summed => .ok (.delegations summed)) finish.2 ∧
      sums.map (·.1) = [2, 1] ∧ (mergeAll sums).1 = (savedDelegations finish.2.written).length ∧
      (mergeAll sums).1 = 3 ∧ stakeIn (mergeAll sums).2 1 = 300 := by
  intro c pool turns finish sums
  have run : Interleaved (Answers (firstDelegations 3)) pool (.start .empty .empty)
      (finish.1.filterMap result?) finish.2 :=
    interleaved_of_turns (fun r w => (replying_succeeds _ 20 r w).1) turns pool _ (by decide +kernel)
  have returned : sums.map (fun summed => .ok (.delegations summed)) = finish.1.filterMap result? :=
    summed_all (by decide +kernel)
  rw [← returned] at run
  have saved := workers_save run
  exact ⟨run, by decide +kernel, saved.2.2.2.2.2.1, by decide +kernel, by decide +kernel⟩

end Pool

end EpochSync

end StakeIndex
