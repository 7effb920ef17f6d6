import Mathlib.Data.List.Induction
import StakeIndex.Chain.HeaderCache
import StakeIndex.Proofs.Table
import StakeIndex.Proofs.Traces

/-!
Headers that are read through a cache, one after another, from a chain that tells one header of each block or
fails. A call returns what the chain tells, or its own failure; and a header that was told is not asked for
again.
-/
namespace StakeIndex

open Dialogue

variable {σ : Type}

namespace HeaderCache

/-- A call for the header of a block: what was asked for it, what it returned, and the cache before and
after it. -/
structure LookUp where
  height : Nat
  before : HeaderCache
  asked : List (Exchange Request.Answer)
  result : Except Stop BlockHeader
  after : HeaderCache

/-- Calls that were made so far, with the cache and the world after them. -/
structure LookUps (σ : Type) where
  past : List LookUp
  cache : HeaderCache
  world : σ

/-- One more call. -/
def LookUps.next (answer : (r : Request) → σ → r.Answer × σ) (calls : LookUps σ) (height : Nat) :
    LookUps σ :=
  let ((result, after), world, asked) := (calls.cache.fetch height).run (noting answer) (calls.world, [])
  ⟨calls.past ++ [⟨height, calls.cache, asked, result, after⟩], after, world⟩

/-- Calls on a new cache. -/
def lookUpAll (answer : (r : Request) → σ → r.Answer × σ) (world : σ) (heights : List Nat) : LookUps σ :=
  heights.foldl (LookUps.next answer) ⟨[], .empty, world⟩

/-- A call that failed because its request did. It leaves everything as it was. -/
structure LookUp.Failed (call : LookUp) (fault : ChainFault) : Prop where
  result : call.result = .error (.failed (fault.toFailure "eth_getBlockByNumber"))
  asked : call.asked = [⟨.chain (.header call.height), .error fault⟩]
  unchanged : call.after = call.before

section Fetching

variable {cache : HeaderCache} {height : Nat} {header : BlockHeader}

theorem get?_insert (cache : HeaderCache) (range : BlockRange) (header : BlockHeader) (h : Nat) :
    (cache.insert range (some header)).get? h = if h = header.number then some header else cache.get? h :=
  Table.find?_insert ..

/-- What a call returns and keeps when its request is replied to. -/
def received (cache : HeaderCache) (height : Nat) :
    Except ChainFault BlockHeader → Except Stop BlockHeader × HeaderCache
  | .ok header => (.ok header, cache.insert ⟨height, height⟩ (some header))
  | .error fault => (.error (.failed (fault.toFailure "eth_getBlockByNumber")), cache)

theorem fetch_known (known : cache.get? height = some header) :
    cache.fetch height = .done (.ok header, cache) := by
  unfold fetch
  rw [known]
  rfl

theorem fetch_unknown (unknown : cache.get? height = none) :
    cache.fetch height = .ask (.chain (.header height)) fun reply => .done (cache.received height reply) := by
  unfold fetch
  rw [unknown]
  refine congrArg (Dialogue.ask _) (funext fun reply => ?_)
  cases reply <;> rfl

end Fetching

section Calls

/-- A chain that tells one header of each block, or fails. -/
structure Telling (headers : Nat → BlockHeader) (answer : (r : Request) → σ → r.Answer × σ) : Prop where
  numbered : ∀ height, (headers height).number = height
  told : ∀ height w header, (answer (.chain (.header height)) w).1 = .ok header → header = headers height

/-- A call returns the header of its block or fails with its request. It asks for that block only, and only if
the cache does not know it, and the cache then knows what it returned besides what it knew. -/
structure LookUp.Fair (headers : Nat → BlockHeader) (call : LookUp) : Prop where
  returns : call.result = .ok (headers call.height) ∨ ∃ fault, call.Failed fault
  own : ∀ e ∈ call.asked, e.1 = .chain (.header call.height)
  unasked : (call.before.get? call.height).isSome → call.asked = []
  keeps : ∀ height header, call.after.get? height = some header ↔
    call.before.get? height = some header ∨ call.height = height ∧ call.result = .ok header

variable {headers : Nat → BlockHeader} {answer : (r : Request) → σ → r.Answer × σ} {cache : HeaderCache}
  {height : Nat}

theorem fair_recalled (known : cache.get? height = some (headers height)) :
    LookUp.Fair headers ⟨height, cache, [], .ok (headers height), cache⟩ where
  returns := .inl rfl
  own _ among := (nomatch among)
  unasked _ := rfl
  keeps h header := by
    refine ⟨.inl, ?_⟩
    rintro (same | ⟨rfl, same⟩)
    · exact same
    · cases same
      exact known

theorem fair_received {reply : Except ChainFault BlockHeader} (numbered : (headers height).number = height)
    (told : ∀ header, reply = .ok header → header = headers height) (unknown : cache.get? height = none) :
    LookUp.Fair headers ⟨height, cache, [⟨.chain (.header height), reply⟩],
      (cache.received height reply).1, (cache.received height reply).2⟩ where
  returns := by
    cases reply with
    | ok header =>
      obtain rfl := told header rfl
      exact .inl rfl
    | error fault => exact .inr ⟨fault, rfl, rfl, rfl⟩
  own := List.forall_mem_singleton.2 rfl
  unasked known := by
    rw [unknown] at known
    cases known
  keeps h header := by
    cases reply with
    | ok got =>
      obtain rfl := told got rfl
      change (cache.insert ⟨height, height⟩ (some (headers height))).get? h = some header ↔ _
      rw [get?_insert, numbered]
      split
      next same =>
        rw [same, unknown]
        simp [received]
      next other => simp [Ne.symm other]
    | error fault =>
      refine ⟨.inl, ?_⟩
      rintro (same | ⟨-, wrong⟩)
      · exact same
      · cases wrong

/-- One more call is a fair one. -/
theorem LookUps.next_fair (telling : Telling headers answer) (calls : LookUps σ) (height : Nat)
    (known : ∀ header, calls.cache.get? height = some header → header = headers height) :
    ∃ call : LookUp, call.Fair headers ∧ call.height = height ∧ call.before = calls.cache ∧
      (calls.next answer height).past = calls.past ++ [call] ∧
      (calls.next answer height).cache = call.after := by
  unfold LookUps.next
  cases found : calls.cache.get? height with
  | some header =>
    obtain rfl := known header found
    rw [fetch_known found]
    exact ⟨_, fair_recalled found, rfl, rfl, rfl, rfl⟩
  | none =>
    rw [fetch_unknown found]
    exact ⟨_, fair_received (telling.numbered height) (telling.told height _) found, rfl, rfl, rfl, rfl⟩

/-- What is known after some calls, and what they returned and asked. -/
structure LookUps.Transparent (headers : Nat → BlockHeader) (calls : LookUps σ) : Prop where
  returns : ∀ call ∈ calls.past, call.result = .ok (headers call.height) ∨ ∃ fault, call.Failed fault
  own : ∀ call ∈ calls.past, ∀ e ∈ call.asked, e.1 = .chain (.header call.height)
  once : calls.past.Pairwise fun call later =>
    call.result = .ok (headers call.height) → ∀ e ∈ later.asked, e.1 ≠ .chain (.header call.height)
  known : ∀ height header, calls.cache.get? height = some header ↔
    ∃ call ∈ calls.past, call.height = height ∧ call.result = .ok header

namespace LookUps.Transparent

variable {calls calls' : LookUps σ} {call : LookUp}

theorem start (headers : Nat → BlockHeader) (w : σ) : Transparent headers ⟨[], .empty, w⟩ where
  returns _ among := (nomatch among)
  own _ among := (nomatch among)
  once := .nil
  known _ _ := by
    constructor
    · exact fun known => (nomatch known)
    · rintro ⟨_, among, -⟩
      cases among

variable (transparent : calls.Transparent headers)
include transparent

/-- What the cache knows is what the chain tells. -/
theorem of_known {header : BlockHeader} (known : calls.cache.get? height = some header) :
    header = headers height := by
  obtain ⟨call, among, rfl, well⟩ := (transparent.known ..).1 known
  obtain same | ⟨fault, failed⟩ := transparent.returns call among
  · rw [same] at well
    exact (Except.ok.inj well).symm
  · rw [failed.result] at well
    cases well

theorem next (fair : call.Fair headers) (before : call.before = calls.cache)
    (past : calls'.past = calls.past ++ [call]) (cache : calls'.cache = call.after) :
    calls'.Transparent headers where
  returns := by
    rw [past]
    exact List.forall_mem_append.2 ⟨transparent.returns, List.forall_mem_singleton.2 fair.returns⟩
  own := by
    rw [past]
    exact List.forall_mem_append.2 ⟨transparent.own, List.forall_mem_singleton.2 fair.own⟩
  once := by
    rw [past]
    refine List.pairwise_append.2 ⟨transparent.once, List.pairwise_singleton .., ?_⟩
    intro earlier among later last
    obtain rfl := List.mem_singleton.1 last
    intro well e asked same
    -- A call for the same block finds the header in the cache.
    have height := (fair.own e asked).symm.trans same
    have known := (transparent.known later.height _).2 ⟨earlier, among, by simpa using height.symm, well⟩
    rw [fair.unasked (by rw [before, known]; rfl)] at asked
    cases asked
  known height header := by
    rw [cache, fair.keeps, before, transparent.known, past]
    simp only [List.mem_append, List.mem_singleton, or_and_right, exists_or, exists_eq_left]

end LookUps.Transparent

theorem lookUpAll_concat (answer : (r : Request) → σ → r.Answer × σ) (w : σ) (heights : List Nat) :
    lookUpAll answer w (heights ++ [height]) = (lookUpAll answer w heights).next answer height := by
  unfold lookUpAll
  rw [List.foldl_append]
  rfl

/-- Any calls on a new cache. Each of them returns the header that the chain tells of its block, or it fails
with its request and leaves the cache as it was. What was returned once is never asked for again, and the cache
knows the headers that were returned, and no others. -/
theorem fetches_transparent (telling : Telling headers answer) (w : σ) (heights : List Nat) :
    (lookUpAll answer w heights).past.map (·.height) = heights ∧
      (lookUpAll answer w heights).Transparent headers := by
  induction heights using List.reverseRecOn with
  | nil => exact ⟨rfl, .start headers w⟩
  | append_singleton heights height ih =>
    obtain ⟨asked, transparent⟩ := ih
    obtain ⟨call, fair, same, before, past, cache⟩ :=
      LookUps.next_fair telling (lookUpAll answer w heights) height fun _ => transparent.of_known
    rw [lookUpAll_concat]
    refine ⟨?_, transparent.next fair before past cache⟩
    rw [past, List.map_append, asked, List.map_singleton, same]

/-- A chain of headers without content that keeps silent on some requests, as told by a list. -/
def faltering : (r : Request) → List Bool → r.Answer × List Bool
  | .chain (.header _), true :: rest => (.error .silent, rest)
  | .chain (.header height), asked => (.ok ⟨height, .zero, 0⟩, asked.tail)
  | r, asked => ((answering (fun _ => .error .silent) (fun _ => false) r .empty).1, asked)

theorem faltering_telling : Telling (fun height => ⟨height, .zero, 0⟩) faltering where
  numbered _ := rfl
  told height w header well := by
    rcases w with _ | ⟨_ | _, rest⟩
    · exact (Except.ok.inj well).symm
    · exact (Except.ok.inj well).symm
    · cases well

/-- Five calls for two blocks, with three requests of which the second one fails. -/
theorem fetches_transparent_faltering :
    let calls := lookUpAll faltering [false, true, false] [5, 5, 7, 5, 7]
    (calls.past.map fun call => (call.result.toOption.map (·.number), call.asked.length)) =
      [(some 5, 1), (some 5, 0), (none, 1), (some 5, 0), (some 7, 1)] ∧
    calls.past.map (·.height) = [5, 5, 7, 5, 7] ∧
    calls.Transparent fun height => ⟨height, .zero, 0⟩ :=
  ⟨by decide +kernel, fetches_transparent faltering_telling [false, true, false] [5, 5, 7, 5, 7]⟩

end Calls

end HeaderCache
end StakeIndex
