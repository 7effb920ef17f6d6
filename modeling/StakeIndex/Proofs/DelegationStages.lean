import Mathlib.Logic.Relation
import StakeIndex.Proofs.Pinning
import StakeIndex.Proofs.Registration
import StakeIndex.Proofs.Sessions

/-!
Stages of delegations. On a chain where delegations live as they should, no event is flagged: whichever older
row is compared, be it of a log or of a synchronisation, it shows the stage that the delegation had at its own
height, and from there the stage that is read now can be reached. Nothing depends on the order of the work.
-/
namespace StakeIndex

open Dialogue Job

namespace DelegationState

variable {s t : DelegationState}

/-- One stage leads to another in any number of steps. -/
abbrev LeadsTo : DelegationState → DelegationState → Prop := Relation.ReflTransGen fun s next => next ∈ s.successors

theorem leadsTo_of_reaches {steps : Nat} (reaches : s.reaches steps t) : s.LeadsTo t := by
  induction steps generalizing s with
  | zero => cases reaches
  | succ steps ih =>
    obtain ⟨next, among, found⟩ := List.any_eq_true.1 reaches
    refine .head among ?_
    obtain same | further := Bool.or_eq_true_iff.1 found
    · rw [beq_iff_eq.1 same]
    · exact ih further

/-- Four steps are enough to go on from what was reached in four. -/
theorem reaches_of_mem {last : DelegationState} (reaches : s = t ∨ s.reaches 4 t) (next : last ∈ t.successors) :
    s.reaches 4 last := by
  cases s <;> cases t <;> cases last <;> revert reaches next <;> decide

/-- The check admits what it should, and no more. -/
theorem mayBecome_iff : s.mayBecome t ↔ s.LeadsTo t ∨ s = unknown ∨ t = unknown := by
  have reached (leads : s.LeadsTo t) : s = t ∨ s.reaches 4 t := by
    induction leads with
    | refl => exact .inl rfl
    | tail _ next ih => exact .inr (reaches_of_mem ih next)
  simp only [mayBecome, Bool.or_eq_true, beq_iff_eq, or_assoc]
  constructor
  · rintro (rfl | known | known | reaches)
    · exact .inl .refl
    · exact .inr (.inl known)
    · exact .inr (.inr known)
    · exact .inl (leadsTo_of_reaches reaches)
  · rintro (leads | known | known)
    · exact (reached leads).imp_right fun reaches => .inr (.inr reaches)
    · exact .inr (.inl known)
    · exact .inr (.inr (.inl known))

end DelegationState

/-- One contract tells of delegations: their logs come from it, and synchronisations read it. -/
structure OneController (registry : Registry) (controller : Binding) : Prop where
  logs : ∀ address binding, registry.atAddress? address = some binding →
    binding.name = .delegationController → binding = controller
  syncs : ∀ version binding, registry.find? .delegationController version = some binding → binding = controller

/-- A registry of contracts of which one is a contract of delegations. -/
theorem oneController_ofBindings {bindings : List Binding} {controller : Binding}
    (one : ∀ binding ∈ bindings, binding.name = .delegationController → binding = controller) :
    OneController (Registry.ofBindings bindings) controller where
  logs _ binding found role := one binding (mem_of_atAddress? found) role
  syncs _ binding found := one binding (mem_of_find? found).1 (mem_of_find? found).2

/-- The stage of each delegation at a height, on a chain where it only moves on from each height to later ones.
To read it comes to that stage or to none that is known, or it fails. -/
structure Lives (heard : Hearsay) (c : ViewContract) (stage : Word → Nat → DelegationState) : Prop where
  moves : ∀ id h k, 0 < h → h < k → (stage id h).LeadsTo (stage id k)
  reads : ∀ id h s, 0 < h → Runs heard.Hears (c.delegationState id h).run () (.ok s) () →
    s = stage id h ∨ s = .unknown

/-- A row has the stage of its delegation at its height, or none that is known. -/
def Delegation.Shows (stage : Word → Nat → DelegationState) (d : Delegation) : Prop :=
  0 < d.height ∧ (d.state = stage d.id d.height ∨ d.state = .unknown)

/-- Rows show the stages of their delegations, and no event is flagged. -/
def stageCode (stage : Word → Nat → DelegationState) : Code where
  holds t := (∀ key d, t.delegations.find? key = some d → key = (d.id, d.height) ∧ d.Shows stage) ∧
    ∀ key e, t.contractEvents.find? key = some e → e.flagged = false
  may _
    | .saveDelegation d => d.Shows stage
    | .saveContractEvent e => e.flagged = false
    | _ => True
  returns e := e.flagged = false

namespace Tables

theorem insert_saveContractEvent (t : Tables) (e : ContractEvent) : ∃ id, (t.saveContractEvent e).contractEvents =
    t.contractEvents.insert (e.txHash, e.logIndex) { e with id := some id } := by
  unfold saveContractEvent
  dsimp only
  split
  · exact ⟨_, rfl⟩
  · exact ⟨_, rfl⟩

end Tables

section Stages

variable {heard : Hearsay} {registry : Registry} {controller : Binding} {stage : Word → Nat → DelegationState}

theorem stageCode_keeps {r : StoreRequest} {origin : Option RawLog} (may : (stageCode stage).may origin r)
    {t : Tables} (right : (stageCode stage).holds t) : (stageCode stage).holds (t.perform r).2 := by
  obtain ⟨rows, events⟩ := right
  constructor
  · cases stored : r.delegation? with
    | none =>
      rw [(Tables.perform_frame r t).2.1 stored]
      exact rows
    | some d =>
      obtain rfl : r = .saveDelegation d := by
        cases r <;> cases stored
        rfl
      exact Table.forall_insert rows ⟨rfl, may⟩
  · cases stored : r.contractEvent? with
    | none =>
      rw [(Tables.perform_frame r t).2.2 stored]
      exact events
    | some e =>
      obtain rfl : r = .saveContractEvent e := by
        cases r <;> cases stored
        rfl
      obtain ⟨id, saved⟩ := t.insert_saveContractEvent e
      change ∀ key e', (t.saveContractEvent e).contractEvents.find? key = some e' → e'.flagged = false
      rw [saved]
      exact Table.forall_insert events may

variable {c : ViewContract} (lives : Lives heard c stage) {origin : Option RawLog} {height : Nat}
  (positive : 0 < height)
include lives positive

theorem conforms_stage (id : Word) : (stageCode stage).Conforms heard origin (c.delegationState id height) fun s =>
    s = stage id height ∨ s = .unknown := by
  refine (Code.obeys_hearing (c.delegationState_consults height id) fun _ => False.elim).mono ?_
  rintro _ result ⟨-, run⟩ s rfl
  exact lives.reads id height s positive run

theorem conforms_delegation (id : Word) : (stageCode stage).Conforms heard origin (c.delegation id height) fun d =>
    d.id = id ∧ d.height = height ∧ d.Shows stage := by
  unfold ViewContract.delegation
  refine (Code.conforms_consults (c.delegationRecord_consults height id)).bind fun read ⟨same, at_⟩ => ?_
  subst same at_
  exact (conforms_stage lives positive read.id).bind fun _ shown =>
    Code.conforms_pure ⟨rfl, rfl, positive, shown⟩

omit positive in
/-- Every older row of a delegation can become what a later one shows. -/
theorem mayBecome_of_shows {older d : Delegation} (before : older.Shows stage) (now : d.Shows stage)
    (same : older.id = d.id) (below : older.height < d.height) : older.state.mayBecome d.state := by
  rw [DelegationState.mayBecome_iff]
  obtain ⟨positive, known | unknown⟩ := before
  · obtain ⟨-, known' | unknown⟩ := now
    · rw [known, known', same]
      exact .inl (lives.moves d.id older.height d.height positive below)
    · exact .inr (.inr unknown)
  · exact .inr (.inl unknown)

omit lives positive in
theorem shows_of_older {t : Tables} (right : (stageCode stage).holds t) {q : DelegationQuery} {d : Delegation}
    (member : d ∈ (t.perform (.delegations q)).1) :
    d.Shows stage ∧ q.id.all (d.id == ·) ∧ q.before.all (d.height < ·) := by
  obtain ⟨member, admitted⟩ := List.mem_filter.1 member
  obtain ⟨key, found, below⟩ := Table.find?_of_mem_current member
  obtain ⟨rfl, shows⟩ := right.1 key d found
  simp only [DelegationQuery.admits, Bool.and_eq_true] at admitted
  exact ⟨shows, admitted.1.1.1, below⟩

omit lives positive in
theorem may_of_beside {r : StoreRequest} (beside : HandlesBeside height r) : (stageCode stage).may origin r := by
  obtain ⟨handles, other⟩ := beside
  cases handles with
  | delegation => exact absurd rfl (other _)
  | _ => trivial

omit lives positive in
theorem conforms_beside {job : Job ContractEvent} {e : ContractEvent}
    (within : WithinThen (SnapsAt height) (HandlesBeside height) job e.SameFlag) (unflagged : e.flagged = false) :
    (stageCode stage).Conforms heard origin job fun e' => e'.flagged = false := by
  have within : Within ((stageCode stage).may origin) job e.SameFlag :=
    AsksThen.asks within (fun _ snaps => by cases snaps <;> trivial) fun _ beside => may_of_beside beside
  exact (Code.conforms_of_within within fun _ => id).mono fun _ same => same.flagged.trans unflagged

theorem conforms_handleDelegation {log : DecodedLog} {e : ContractEvent} (at_ : e.height = height)
    (unflagged : e.flagged = false) :
    (stageCode stage).Conforms heard origin (handleDelegation c log e) fun e' => e'.flagged = false := by
  subst at_
  unfold handleDelegation
  refine (Code.conforms_consults (consults_lift fun _ _ => trivial)).bind fun found _ => ?_
  cases found with
  | none => exact Code.conforms_pure unflagged
  | some parsed =>
    refine (conforms_delegation lives positive parsed.delegationId).bind fun read ⟨mine, at_, shows⟩ => ?_
    refine (Code.conforms_store trivial).bind fun older ⟨t, right, answer⟩ => ?_
    refine (Code.conforms_store shows).bind fun _ _ => ?_
    -- Only the flag is left: it compares with the first of the rows that some right tables answered.
    refine conforms_beside (tellDelegation_within c e parsed _ _).then ?_
    dsimp only
    split
    next previous rest answer =>
      obtain ⟨before, same, below⟩ := shows_of_older right (answer ▸ List.mem_cons_self : previous ∈ _)
      simp only [Option.all_some, beq_iff_eq, decide_eq_true_eq] at same below
      rw [Bool.not_eq_false']
      exact mayBecome_of_shows lives before shows (same.trans mine.symm) (at_ ▸ below)
    next => exact unflagged

theorem conforms_read (id : Word) :
    (stageCode stage).Conforms heard none (EpochSync.delegation c id height) fun d => d.Shows stage := by
  unfold EpochSync.delegation
  refine ⟨trivial, fun known ⟨_, keyed⟩ => ?_⟩
  refine (conforms_stage lives positive id).bind fun state shown => ?_
  -- The stage is always the one that was just read, also on a record that was kept from earlier.
  split
  next d kept =>
    obtain ⟨there, same⟩ := Option.filter_eq_some_iff.1 kept
    refine Code.conforms_pure ⟨positive, ?_⟩
    rw [keyed rfl d there, beq_iff_eq.1 same]
    exact shown
  next =>
    refine (Code.conforms_consults (c.delegationRecord_consults height id)).bind fun read ⟨same, at_⟩ => ?_
    subst same at_
    refine ⟨trivial, fun _ _ => ?_⟩
    exact Code.conforms_pure ⟨positive, shown⟩

end Stages

section Sessions

variable {heard : Hearsay} {registry : Registry} {controller : Binding} {stage : Word → Nat → DelegationState}

theorem exists_of_bind_eq_ok {α β : Type} {x : Except Failure α} {f : α → Except Failure β} {b : β}
    (same : x >>= f = .ok b) : ∃ a, x = .ok a ∧ f a = .ok b := by
  cases x with
  | error => cases same
  | ok a => exact ⟨a, rfl, same⟩

theorem OneController.of_found (one : OneController registry controller) {mode : NodeMode} {version : Version}
    {c : SyncContracts} (found : EpochSync.findContracts ⟨registry, mode⟩ version = .ok c) :
    c.controller = ⟨⟨registry, mode⟩, controller⟩ := by
  obtain ⟨service, -, found⟩ := exists_of_bind_eq_ok found
  obtain ⟨nodes, -, found⟩ := exists_of_bind_eq_ok found
  obtain ⟨binding, known, found⟩ := exists_of_bind_eq_ok found
  cases found
  rw [one.syncs version binding (Registry.find?_of_require known)]

theorem stageCode_governs (one : OneController registry controller)
    (lives : Lives heard ⟨⟨registry, .archive⟩, controller⟩ stage) :
    (stageCode stage).Governs heard ⟨registry, .archive⟩ (0 < ·) where
  keeps _ _ may _ right := stageCode_keeps may right
  handles binding header log known positive := by
    suffices unflagged : (stageCode stage).Conforms heard (some log)
        (handleLog ⟨registry, .archive⟩ binding header log) fun e => e.flagged = false from
      unflagged.mono fun _ unflagged => ⟨unflagged, unflagged⟩
    unfold handleLog
    refine (Code.conforms_consults (consults_lift fun _ _ => trivial)).bind fun decoded _ => ?_
    by_cases mine : binding.name = .delegationController
    · obtain rfl := one.logs log.address binding known mine
      unfold handleEvent
      simp only [mine]
      exact conforms_handleDelegation lives positive rfl rfl
    · exact conforms_beside (handleEvent_beside _ _ mine _) rfl
  reads version c id height found positive := by
    rw [one.of_found found]
    exact conforms_read lives positive id
  stores r may other := by
    cases may with
    | delegation d => exact absurd rfl (other d)
    | _ => trivial

/-- Where delegations live as they should, no event is flagged: none that is returned, none that is asked to be
stored, and none that stands in the tables, whatever is handled and synchronised in which order and wherever
that fails. -/
theorem Session.never_flagged (one : OneController registry controller)
    (lives : Lives heard ⟨⟨registry, .archive⟩, controller⟩ stage) {deeds : List Deed} {t : Tables}
    (session : Session heard ⟨registry, .archive⟩ .empty deeds t)
    (positive : ∀ deed ∈ deeds, ∀ height ∈ deed.heights, 0 < height) :
    (∀ deed ∈ deeds, (∀ e ∈ deed.events, e.flagged = false) ∧
      ∀ e, .saveContractEvent e ∈ deed.calls → e.flagged = false) ∧
    ∀ key e, t.contractEvents.find? key = some e → e.flagged = false := by
  have start : (stageCode stage).holds .empty :=
    ⟨fun _ _ none => (nomatch none), fun _ _ none => (nomatch none)⟩
  obtain ⟨right, kept⟩ := (stageCode_governs one lives).session session positive start
  refine ⟨fun deed member => ⟨(kept deed member).events, fun e asked => ?_⟩, right.2⟩
  obtain ⟨⟨origin, _⟩, performed, rfl⟩ := List.mem_map.1 asked
  exact (kept deed member).performed _ performed

end Sessions

section Living

variable {chain : ChainAnswers}

/-- A job that only hears what a chain answers is an attempt at it, and leaves the tables as they are. -/
theorem attempt_of_hears {ρ : Type} {holds : ρ → Prop} {steps : Steps ρ} {result : ρ}
    (asks : Asks (fun _ => False) holds steps) (run : Runs (Hearsay.of chain).Hears steps () result ()) (t : Tables) :
    Runs (Allows chain) steps t result t := by
  induction asks with
  | done h =>
    cases run
    exact .done _ t
  | chain _ ih =>
    cases run with
    | ask admitted rest => exact .ask (working_iff_allows.1 ⟨rfl, admitted⟩) (ih _ rest)
  | shared _ ih =>
    cases run with
    | ask admitted rest => exact .ask (working_iff_allows.1 ⟨rfl, admitted⟩) (ih _ rest)
  | store wrong => exact wrong.elim

/-- Delegations live on a chain whose answers are fixed if what it tells of their stages moves on. -/
theorem lives_of_told {c : ViewContract} {stage : Word → Nat → DelegationState}
    (moves : ∀ id h k, 0 < h → h < k → (stage id h).LeadsTo (stage id k))
    (told : ∀ id h s, 0 < h → told? chain (c.delegationState id h) = some s → s = stage id h ∨ s = .unknown) :
    Lives (.of chain) c stage where
  moves := moves
  reads id h s positive run := by
    have reads : Reads chain (c.delegationState id h) := (c.callUint_reads chain h ..).bind fun _ => reads_pure _
    exact told id h s positive (reads.told (attempt_of_hears (c.delegationState_consults h id) run .empty))

/-- A chain that has its own answers at each block. -/
def byBlock (chains : Nat → ChainAnswers) : ChainAnswers
  | .call (.number n) contract input => chains n (.call (.number n) contract input)
  | .header n => chains n (.header n)
  | r => evenChain r

/-- View calls at a height are told what the chain answers there. -/
theorem told?_byBlock {context : Context} (archive : context.mode = .archive) {height : Nat}
    (positive : 0 < height) {α : Type} {job : Job α} (calls : CallsAt context height job)
    (chains : Nat → ChainAnswers) : told? (byBlock chains) job = told? (chains height) job := by
  have pinned := calls.pinned positive
  rw [archive] at pinned
  have alike (r : Request) (may : MayAsk .archive height true r) :
      answering (byBlock chains) (fun _ => false) r = answering (chains height) (fun _ => false) r := by
    refine funext fun t => ?_
    cases r with
    | chain r =>
      cases r with
      | head => rfl
      | logs => cases may
      | _ =>
        cases may
        rfl
    | store => rfl
    | shared r => cases r <;> rfl
  exact congrArg (·.1.toOption) (pinned.obeys.run_congr alike Tables.empty)

/-- The code of the stage of some delegations, which are proposed first and delegated from block 20 on. -/
def livingCode (height : Nat) : Nat := if height < 20 then 0 else 4

def livingChain : ChainAnswers :=
  byBlock fun height => byId fun contract id =>
    if contract = .zero ∧ id.toNat < 5 then
      [livingCode height, 1, 100, 0, 0, 0, 0, 256, 0].flatMap Abi.wordOf
    else []

def livingBindings : List Binding := [validatorBinding, nodeBinding, delegationBinding]

def livingContext : Context where
  mode := .archive
  registry := { Registry.ofBindings livingBindings with events := delegationContext.registry.events }

set_option maxRecDepth 100000 in
theorem told?_constantly {code : Nat} (known : code = 0 ∨ code = 4) (id : Word) (height : Nat) :
    told? (constantly ([code, 1, 100, 0, 0, 0, 0, 256, 0].flatMap Abi.wordOf))
      (ViewContract.delegationState ⟨livingContext, delegationBinding⟩ id height) = some (.ofCode code) := by
  obtain rfl | rfl := known
  · cases height <;> rfl
  · cases height <;> rfl

theorem told?_livingChain {height : Nat} (positive : 0 < height) {id : Word} {s : DelegationState}
    (told : told? livingChain (ViewContract.delegationState ⟨livingContext, delegationBinding⟩ id height) = some s) :
    s = .ofCode (livingCode height) := by
  have calls := ViewContract.delegationState_callsAt ⟨livingContext, delegationBinding⟩ height id
  rw [livingChain, told?_byBlock rfl positive calls, told?, delegationState_alike] at told
  have code : livingCode height = 0 ∨ livingCode height = 4 := by
    unfold livingCode
    split
    · exact .inl rfl
    · exact .inr rfl
  split at told
  next => exact (Option.some.inj ((told?_constantly code id height).symm.trans told)).symm
  next =>
    cases height with
    | zero => cases positive
    | succ height => cases told

theorem livingChain_lives : Lives (.of livingChain) ⟨livingContext, delegationBinding⟩
    fun _ height => .ofCode (livingCode height) := by
  refine lives_of_told (fun id h k _ later => ?_) fun id h s positive told => .inl (told?_livingChain positive told)
  have steps : DelegationState.proposed.LeadsTo .delegated :=
    .tail (.single (by decide : .accepted ∈ DelegationState.proposed.successors)) (by decide)
  unfold livingCode
  split
  · split
    · exact .refl
    · exact steps
  · rw [if_neg (by omega)]

theorem livingContext_controller : OneController livingContext.registry delegationBinding := by
  have one : OneController (Registry.ofBindings livingBindings) delegationBinding := by
    refine oneController_ofBindings fun binding member role => ?_
    simp only [livingBindings, List.mem_cons, List.not_mem_nil, or_false] at member
    obtain rfl | rfl | rfl := member
    · cases role
    · cases role
    · rfl
  exact ⟨one.logs, one.syncs⟩

def livingContracts : SyncContracts :=
  ⟨⟨livingContext, validatorBinding⟩, ⟨livingContext, nodeBinding⟩, ⟨livingContext, delegationBinding⟩⟩

/-- A log of block 30 is processed, all delegations are read at block 10, and a log of block 20 is processed,
which finds what was read. -/
def livingDeeds : Option (List Deed × Tables) :=
  let first := processed livingChain livingContext [proposedLog 1 30] .empty
  let turns := (List.range 150).map (· % 3)
  (EpochSync.runInTurns livingChain ⟨1, 5⟩ livingContracts 10 (.ofSeconds 10) first.2 .empty turns).map
    fun (_, w) =>
      let last := processed livingChain livingContext [proposedLog 1 20] w.tables
      (first.1 ++ .ofSync 10 w :: last.1, last.2)

theorem session_livingDeeds {deeds : List Deed} {t : Tables} (done : livingDeeds = some (deeds, t)) :
    Session (.of livingChain) livingContext .empty deeds t := by
  rw [livingDeeds, Option.map_eq_some_iff] at done
  obtain ⟨⟨summary, w⟩, ran, same⟩ := done
  simp only [Prod.mk.injEq] at same
  obtain ⟨rfl, rfl⟩ := same
  have found : EpochSync.findContracts livingContext ⟨"1.0.0"⟩ = .ok livingContracts := rfl
  have returned := EpochSync.returns_of_turns found ran
  exact (session_processed ..).append
    (.cons (.synchronised (returned.mono synchronising_of_succeeds)) (session_processed ..))

theorem never_flagged_living : ∃ deeds t, livingDeeds = some (deeds, t) ∧
    deeds.map (·.heights) = [[30], [10], [20]] ∧
    (t.delegations.find? (1, 10)).map (·.state) = some .proposed ∧
    (t.delegations.find? (1, 20)).map (·.state) = some .delegated ∧
    (∀ deed ∈ deeds, (∀ e ∈ deed.events, e.flagged = false) ∧
      ∀ e, .saveContractEvent e ∈ deed.calls → e.flagged = false) ∧
    ∀ key e, t.contractEvents.find? key = some e → e.flagged = false := by
  have seen : livingDeeds.map (fun s => (s.1.map (·.heights),
      (s.2.delegations.find? (1, 10)).map (·.state), (s.2.delegations.find? (1, 20)).map (·.state))) =
        some ([[30], [10], [20]], some .proposed, some .delegated) := by
    decide +kernel
  obtain ⟨⟨deeds, t⟩, done, same⟩ := Option.map_eq_some_iff.1 seen
  simp only [Prod.mk.injEq] at same
  obtain ⟨heights, proposed, delegated⟩ := same
  have positive : ∀ deed ∈ deeds, ∀ height ∈ deed.heights, 0 < height := by
    have all : ∀ heights ∈ deeds.map (·.heights), ∀ height ∈ heights, 0 < height := by
      rw [heights]
      decide
    exact List.forall_mem_map.1 all
  exact ⟨deeds, t, done, heights, proposed, delegated,
    (session_livingDeeds done).never_flagged livingContext_controller livingChain_lives positive⟩

end Living

end StakeIndex
