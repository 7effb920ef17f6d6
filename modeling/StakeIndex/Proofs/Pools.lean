import StakeIndex.Proofs.Interleaving

/-!
Programs that run side by side, each under a contract of its own. A contract says what a program ends with
after what it has exchanged, as far as the replies are such as it may rely on. Where the world replies so as
long as all programs ask what they may, all contracts hold together, however the requests are interleaved.
-/
namespace StakeIndex.Dialogue

variable {Request : Type} {Answer : Request → Type} {α β σ : Type}

/-- A request and the reply to it. -/
abbrev Exchange (Answer : Request → Type) := (r : Request) × Answer r

/-- What programs may ask, and the replies that they may rely on. -/
structure Protocol (Answer : Request → Type) where
  asks : Request → Prop
  replies : (r : Request) → Answer r → Prop

/-- An exchange of which both sides keep to a protocol. -/
def Protocol.Keeps (p : Protocol Answer) (e : Exchange Answer) : Prop := p.asks e.1 ∧ p.replies e.1 e.2

/-- What is promised of the exchanges of a program and its result. -/
abbrev Promise (Answer : Request → Type) (α : Type) := List (Exchange Answer) → α → Prop

/-- Programs that ask what they may and fulfil a promise, whatever the replies of the protocol. -/
def Obeys (p : Protocol Answer) : Dialogue Request Answer α → Promise Answer α → Prop
  | done a, promise => promise [] a
  | ask r next, promise =>
    p.asks r ∧ ∀ reply, p.replies r reply →
      (next reply).Obeys p fun later a => promise (⟨r, reply⟩ :: later) a

section Contracts

variable {p : Protocol Answer} {promise : Promise Answer α} {d : Dialogue Request Answer α}

theorem Obeys.mono {weaker : Promise Answer α} (obeys : d.Obeys p promise)
    (implies : ∀ past a, promise past a → weaker past a) : d.Obeys p weaker := by
  induction d generalizing promise weaker with
  | done a => exact implies [] a obeys
  | ask r next ih =>
    obtain ⟨may, rest⟩ := obeys
    exact ⟨may, fun reply kept => ih reply (rest reply kept) fun _ a => implies _ a⟩

theorem Obeys.bind {f : α → Dialogue Request Answer β} {promise' : Promise Answer β}
    (first : d.Obeys p promise)
    (next : ∀ past a, promise past a → (f a).Obeys p fun later b => promise' (past ++ later) b) :
    (d >>= f).Obeys p promise' := by
  induction d generalizing promise promise' with
  | done a => exact next [] a first
  | ask r _ ih =>
    obtain ⟨may, rest⟩ := first
    exact ⟨may, fun reply kept => ih reply (rest reply kept) fun past a => next _ a⟩

/-- Programs that rely on less and ask less keep to a protocol as well. -/
theorem Obeys.widen {q : Protocol Answer} (obeys : d.Obeys p promise) (asks : ∀ r, p.asks r → q.asks r)
    (replies : ∀ r reply, q.replies r reply → p.replies r reply) : d.Obeys q promise := by
  induction d generalizing promise with
  | done a => exact obeys
  | ask r next ih =>
    obtain ⟨may, rest⟩ := obeys
    exact ⟨asks r may, fun reply kept => ih reply (rest reply (replies r reply kept))⟩

/-- What programs ask when they keep to a narrow protocol is still known where they are held to a wide one. -/
theorem Obeys.asked {q : Protocol Answer} (obeys : d.Obeys p promise) (asks : ∀ r, p.asks r → q.asks r)
    (replies : ∀ r reply, q.replies r reply → p.replies r reply) :
    d.Obeys q fun past a => promise past a ∧ ∀ e ∈ past, p.asks e.1 := by
  induction d generalizing promise with
  | done a => exact ⟨obeys, fun _ member => (nomatch member)⟩
  | ask r next ih =>
    obtain ⟨may, rest⟩ := obeys
    refine ⟨asks r may, fun reply kept => (ih reply (rest reply (replies r reply kept))).mono ?_⟩
    exact fun later a promised => ⟨promised.1, List.forall_mem_cons.2 ⟨may, promised.2⟩⟩

/-- A program that gets some reply to each request that it may make comes to an end with its promise
fulfilled. -/
theorem Obeys.ends (replied : ∀ r, p.asks r → ∃ reply, p.replies r reply) (obeys : d.Obeys p promise) :
    ∃ past a, promise past a := by
  induction d generalizing promise with
  | done a => exact ⟨[], a, obeys⟩
  | ask r next ih =>
    obtain ⟨may, rest⟩ := obeys
    obtain ⟨reply, kept⟩ := replied r may
    obtain ⟨later, a, promised⟩ := ih reply (rest reply kept)
    exact ⟨_, a, promised⟩

theorem obeys_done {past : List (Exchange Answer)} {a : α} (fulfilled : promise past a) :
    (done a : Dialogue Request Answer α).Obeys p fun later b => promise (past ++ later) b := by
  change promise (past ++ []) a
  rwa [List.append_nil]

theorem Obeys.bind_except {ε : Type} {first : ExceptT ε (Dialogue Request Answer) α}
    {f : α → ExceptT ε (Dialogue Request Answer) β} {promise : Promise Answer (Except ε α)}
    {promise' : Promise Answer (Except ε β)} (obeys : first.run.Obeys p promise)
    (next : ∀ past a, promise past (.ok a) →
      (f a).run.Obeys p fun later b => promise' (past ++ later) b)
    (stopped : ∀ past stop, promise past (.error stop) → promise' past (.error stop)) :
    (first >>= f).run.Obeys p promise' := by
  refine Obeys.bind (d := first.run) obeys fun past result promised => ?_
  cases result with
  | ok a => exact next past a promised
  | error stop => exact obeys_done (stopped past stop promised)

end Contracts

section Pools

variable {allows : (r : Request) → σ → Answer r → σ → Prop}

/-- Exchanges one after another, and how the world changes with them. -/
inductive Along (allows : (r : Request) → σ → Answer r → σ → Prop) :
    σ → List (Exchange Answer) → σ → Prop where
  | nil (s : σ) : Along allows s [] s
  | cons {r : Request} {reply : Answer r} {s s' s'' : σ} {later : List (Exchange Answer)} :
    allows r s reply s' → Along allows s' later s'' → Along allows s (⟨r, reply⟩ :: later) s''

theorem Interleaved.reached {pool : List (Dialogue Request Answer α)} {s s' : σ} {results : List α}
    (run : Interleaved allows pool s results s') : Reached allows pool s (results.map .done) s' := by
  induction run with
  | done results s => exact .start _ s
  | ask answered _ ih => exact .ask answered ih

theorem Interleaved.cons_done {pool : List (Dialogue Request Answer α)} {s s' : σ} {results : List α}
    (run : Interleaved allows pool s results s') (a : α) :
    Interleaved allows (.done a :: pool) s (a :: results) s' := by
  induction run with
  | done results s => exact .done (a :: results) s
  | @ask before after _ _ _ _ _ _ _ answered _ ih =>
    exact @Interleaved.ask _ _ _ _ allows (.done a :: before) after _ _ _ _ _ _ _ answered ih

/-- A program may go on for a while before the others do. -/
theorem Runs.interleaved_bind {d : Dialogue Request Answer β} {f : β → Dialogue Request Answer α}
    {pool : List (Dialogue Request Answer α)} {s s' s'' : σ} {b : β} {results : List α}
    (run : Runs allows d s b s') (others : Interleaved allows (f b :: pool) s' results s'') :
    Interleaved allows ((d >>= f) :: pool) s results s'' := by
  induction run with
  | done b s => exact others
  | ask answered _ ih => exact @Interleaved.ask _ _ _ _ allows [] pool _ _ _ _ _ _ _ answered (ih others)

/-- To run one program after another is one way to interleave them. -/
theorem Runs.interleaved {d : Dialogue Request Answer α} {pool : List (Dialogue Request Answer α)}
    {s s' s'' : σ} {a : α} {results : List α} (run : Runs allows d s a s')
    (others : Interleaved allows pool s' results s'') :
    Interleaved allows (d :: pool) s (a :: results) s'' := by
  have whole : Interleaved allows ((d >>= fun a => Dialogue.done a) :: pool) s (a :: results) s'' :=
    run.interleaved_bind (others.cons_done a)
  rwa [bind_done] at whole

theorem Reached.trans {pool pool' pool'' : List (Dialogue Request Answer α)} {s s' s'' : σ}
    (first : Reached allows pool s pool' s') (second : Reached allows pool' s' pool'' s'') :
    Reached allows pool s pool'' s'' := by
  induction first with
  | start => exact second
  | ask answered _ ih => exact .ask answered (ih second)

/-- A program may come to its end while the others wait. -/
theorem Runs.reached {d : Dialogue Request Answer α} {s s' : σ} {a : α} (run : Runs allows d s a s')
    (before after : List (Dialogue Request Answer α)) :
    Reached allows (before ++ d :: after) s (before ++ .done a :: after) s' := by
  induction run with
  | done => exact .start ..
  | ask answered _ ih => exact .ask answered ih

variable {p : Protocol Answer} {holds : σ → Prop}

/-- A program under way, with what it has exchanged already. -/
structure Contract (Answer : Request → Type) (α : Type) where
  promise : Promise Answer α
  past : List (Exchange Answer)

/-- The rest of a program fulfils what was promised of the whole. -/
def Contract.Binds (p : Protocol Answer) (d : Dialogue Request Answer α) (c : Contract Answer α) : Prop :=
  d.Obeys p fun later a => c.promise (c.past ++ later) a

theorem Contract.Binds.answered {r : Request} {next : Answer r → Dialogue Request Answer α}
    {c : Contract Answer α} {reply : Answer r} (binds : c.Binds p (.ask r next))
    (kept : p.replies r reply) : Contract.Binds p (next reply) { c with past := c.past ++ [⟨r, reply⟩] } := by
  refine (binds.2 reply kept).mono fun later a promised => ?_
  rwa [List.append_assoc]

/-- What holds of the world, as long as all programs ask what they may, makes it reply as they rely on. -/
def Serves (allows : (r : Request) → σ → Answer r → σ → Prop) (holds : σ → Prop)
    (p : Protocol Answer) : Prop :=
  ∀ r s reply s', holds s → p.asks r → allows r s reply s' → p.replies r reply ∧ holds s'

/-- A program that runs alone fulfils its promise. -/
theorem Runs.fulfils {d : Dialogue Request Answer α} {s s' : σ} {a : α} (serves : Serves allows holds p)
    (run : Runs allows d s a s') {promise : Promise Answer α} (obeys : d.Obeys p promise)
    (right : holds s) : ∃ past, promise past a ∧ Along allows s past s' ∧ holds s' := by
  induction run generalizing promise with
  | done a s => exact ⟨[], obeys, .nil s, right⟩
  | ask answered _ ih =>
    obtain ⟨may, rest⟩ := obeys
    obtain ⟨kept, right⟩ := serves _ _ _ _ right may answered
    obtain ⟨past, promised, along, right⟩ := ih (rest _ kept) right
    exact ⟨_ :: past, promised, .cons answered along, right⟩

/-- All contracts bind at every moment, and what was exchanged is what each of the programs exchanged, in
some order. -/
theorem Reached.binds {pool pool' : List (Dialogue Request Answer α)} {s s' : σ}
    (serves : Serves allows holds p) (reached : Reached allows pool s pool' s')
    {contracts : List (Contract Answer α)} (binds : pool.Forall₂ (fun d c => c.Binds p d) contracts)
    (right : holds s) :
    ∃ (merged : List (Exchange Answer)) (contracts' : List (Contract Answer α)),
      contracts'.map (·.promise) = contracts.map (·.promise) ∧
      pool'.Forall₂ (fun d c => c.Binds p d) contracts' ∧
      (contracts.flatMap (·.past) ++ merged).Perm (contracts'.flatMap (·.past)) ∧
      Along allows s merged s' ∧ (∀ e ∈ merged, p.Keeps e) ∧ holds s' := by
  induction reached generalizing contracts with
  | start pool s =>
    refine ⟨[], contracts, rfl, binds, ?_, .nil s, fun _ member => (nomatch member), right⟩
    rw [List.append_nil]
  | @ask before after pool' r next reply s s' s'' answered _ ih =>
    -- The exchange passes from what the program has before it to the past of its contract.
    obtain ⟨first, c, rest, rfl, others, mine, later⟩ := forall₂_append_cons binds
    have may : p.asks r := mine.1
    obtain ⟨kept, right⟩ := serves r s reply s' right may answered
    have step := List.rel_append others (.cons (mine.answered kept) later)
    obtain ⟨merged, contracts', same, binds', order, along, keeps, right⟩ := ih step right
    refine ⟨⟨r, reply⟩ :: merged, contracts', ?_, binds', ?_, .cons answered along,
      List.forall_mem_cons.2 ⟨⟨may, kept⟩, keeps⟩, right⟩
    · rw [same, List.map_append, List.map_append]
      rfl
    · refine List.Perm.trans ?_ order
      simp only [List.flatMap_append, List.flatMap_cons, List.append_assoc]
      refine (List.Perm.append_left _ ?_).append_left _
      rw [List.cons_append, List.nil_append]
      exact List.perm_middle

theorem Reached.keeps {pool pool' : List (Dialogue Request Answer α)} {s s' : σ}
    (serves : Serves allows holds p) (reached : Reached allows pool s pool' s')
    {promises : List (Promise Answer α)} (obeys : pool.Forall₂ (fun d promise => d.Obeys p promise) promises)
    (right : holds s) :
    ∃ (merged : List (Exchange Answer)) (contracts : List (Contract Answer α)),
      contracts.map (·.promise) = promises ∧ pool'.Forall₂ (fun d c => c.Binds p d) contracts ∧
      merged.Perm (contracts.flatMap (·.past)) ∧ Along allows s merged s' ∧
      (∀ e ∈ merged, p.Keeps e) ∧ holds s' := by
  have binds : pool.Forall₂ (fun d c => c.Binds p d)
      (promises.map fun promise => (⟨promise, []⟩ : Contract Answer α)) :=
    List.forall₂_map_right_iff.2 obeys
  obtain ⟨merged, contracts, same, binds', order, along, keeps, right⟩ := reached.binds serves binds right
  refine ⟨merged, contracts, ?_, binds', ?_, along, keeps, right⟩
  · rw [same, List.map_map]
    exact List.map_id promises
  · have nothing : (promises.map fun promise =>
        (⟨promise, []⟩ : Contract Answer α)).flatMap (·.past) = [] := by simp [List.flatMap_map]
    rwa [nothing, List.nil_append] at order

theorem Contract.Binds.fulfilled {a : α} {c : Contract Answer α} (binds : c.Binds p (.done a)) :
    c.promise c.past a := by
  have fulfilled : c.promise (c.past ++ []) a := binds
  rwa [List.append_nil] at fulfilled

/-- When all programs are done, each has fulfilled its promise. -/
theorem Interleaved.fulfils {pool : List (Dialogue Request Answer α)} {s s' : σ} {results : List α}
    (serves : Serves allows holds p) (run : Interleaved allows pool s results s')
    {promises : List (Promise Answer α)} (obeys : pool.Forall₂ (fun d promise => d.Obeys p promise) promises)
    (right : holds s) :
    ∃ (merged : List (Exchange Answer)) (contracts : List (Contract Answer α)),
      contracts.map (·.promise) = promises ∧ results.Forall₂ (fun a c => c.promise c.past a) contracts ∧
      merged.Perm (contracts.flatMap (·.past)) ∧ Along allows s merged s' ∧
      (∀ e ∈ merged, p.Keeps e) ∧ holds s' := by
  obtain ⟨merged, contracts, same, binds, rest⟩ := run.reached.keeps serves obeys right
  exact ⟨merged, contracts, same,
    (List.forall₂_map_left_iff.1 binds).imp fun a c binds => binds.fulfilled, rest⟩

/-- Where there is some reply to each request, every program that is under way can come to an end. -/
theorem Contract.Binds.exists_end (replied : ∀ r, p.asks r → ∃ reply, p.replies r reply)
    {pool : List (Dialogue Request Answer α)} {contracts : List (Contract Answer α)}
    (binds : pool.Forall₂ (fun d c => c.Binds p d) contracts) :
    ∀ c ∈ contracts, ∃ later a, c.promise (c.past ++ later) a := by
  induction binds with
  | nil => exact fun _ member => (nomatch member)
  | cons first _ ih => exact List.forall_mem_cons.2 ⟨Obeys.ends replied first, ih⟩

/-- A program that is done has fulfilled its promise with exchanges that were made. -/
theorem Reached.done {pool pool' : List (Dialogue Request Answer α)} {s s' : σ}
    (serves : Serves allows holds p) (reached : Reached allows pool s pool' s')
    {promises : List (Promise Answer α)} (obeys : pool.Forall₂ (fun d promise => d.Obeys p promise) promises)
    (right : holds s) {a : α} (ended : .done a ∈ pool') :
    ∃ promise ∈ promises, ∃ past, promise past a ∧
      ∃ others, Along allows s others s' ∧ ∃ more, others.Perm (past ++ more) := by
  obtain ⟨merged, contracts, rfl, binds, order, along, -⟩ := reached.keeps serves obeys right
  obtain ⟨before, after, rfl⟩ := List.append_of_mem ended
  obtain ⟨first, c, rest, rfl, -, mine, -⟩ := forall₂_append_cons binds
  have among : c ∈ first ++ c :: rest := List.mem_append_right _ List.mem_cons_self
  refine ⟨c.promise, List.mem_map_of_mem among, c.past, mine.fulfilled, merged, along,
    first.flatMap (·.past) ++ rest.flatMap (·.past), ?_⟩
  rw [List.flatMap_append, List.flatMap_cons] at order
  refine order.trans ?_
  rw [← List.append_assoc, ← List.append_assoc]
  exact List.perm_append_comm.append_right _

/-- What a program keeps of the world while it goes on holds when it is done, beside programs that ask only
what does not disturb it. -/
theorem Interleaved.beside (keeps : Dialogue Request Answer α → σ → Prop)
    (mine : ∀ r next s reply s', keeps (.ask r next) s → allows r s reply s' → keeps (next reply) s')
    (others : ∀ d r s reply s', keeps d s → p.asks r → allows r s reply s' → keeps d s')
    (replies : ∀ r reply, p.replies r reply) {d : Dialogue Request Answer α}
    {pool : List (Dialogue Request Answer α)} {s s' : σ} {results : List α}
    (run : Interleaved allows (d :: pool) s results s')
    (obeys : ∀ program ∈ pool, ∃ promise, program.Obeys p promise) (start : keeps d s) :
    ∃ a rest, results = a :: rest ∧ keeps (.done a) s' := by
  generalize whole : d :: pool = all at run
  induction run generalizing d pool with
  | done results s =>
    cases results with
    | nil => cases whole
    | cons a rest =>
      cases whole
      exact ⟨a, rest, rfl, start⟩
  | @ask before after r next reply s s' s'' results answered _ ih =>
    cases before with
    | nil =>
      obtain ⟨rfl, rfl⟩ := List.cons.inj whole
      exact ih obeys (mine r next s reply s' start answered) rfl
    | cons first before =>
      obtain ⟨rfl, rfl⟩ := List.cons.inj whole
      obtain ⟨promise, may, rest⟩ := obeys (.ask r next) (by simp)
      refine ih (fun program member => ?_) (others d r s reply s' start may answered) rfl
      rcases List.mem_append.1 member with member | member
      · exact obeys program (by simp [member])
      · rcases List.mem_cons.1 member with rfl | member
        · exact ⟨_, rest reply (replies r reply)⟩
        · exact obeys program (by simp [member])

theorem Along.allowed {s s' : σ} {past : List (Exchange Answer)} (along : Along allows s past s') :
    ∀ e ∈ past, ∃ w w', allows e.1 w e.2 w' := by
  induction along with
  | nil => exact fun _ member => (nomatch member)
  | cons answered _ ih => exact List.forall_mem_cons.2 ⟨⟨_, _, answered⟩, ih⟩

section Weaker

variable {allows' : (r : Request) → σ → Answer r → σ → Prop}
  (weaker : ∀ {r s reply s'}, allows r s reply s' → allows' r s reply s')
include weaker

theorem Along.weaken {s s' : σ} {past : List (Exchange Answer)} (along : Along allows s past s') :
    Along allows' s past s' := by
  induction along with
  | nil s => exact .nil s
  | cons answered _ ih => exact .cons (weaker answered) ih

theorem Reached.weaken {pool pool' : List (Dialogue Request Answer α)} {s s' : σ}
    (reached : Reached allows pool s pool' s') : Reached allows' pool s pool' s' := by
  induction reached with
  | start pool s => exact .start pool s
  | ask answered _ ih => exact .ask (weaker answered) ih

theorem Interleaved.weaken {pool : List (Dialogue Request Answer α)} {s s' : σ} {results : List α}
    (run : Interleaved allows pool s results s') : Interleaved allows' pool s results s' := by
  induction run with
  | done results s => exact .done results s
  | ask answered _ ih => exact .ask (weaker answered) ih

end Weaker

end Pools

end StakeIndex.Dialogue
