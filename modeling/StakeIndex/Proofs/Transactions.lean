import StakeIndex.Proofs.Rewards
import StakeIndex.Proofs.Traces
import StakeIndex.Sql.Store

/-!
Work inside one transaction. Its statements are sent one after another, at most one of them asks for rows, and what
follows depends on how the rows are read. The first statement that fails is the last one, rows that cannot be read are
followed by none, and only work of which everything has been carried out is committed and returns a result.
-/
namespace StakeIndex.Sql

open Dialogue

/-- What has been exchanged with the database. -/
abbrev Traffic := List (Exchange Request.Answer)

namespace Request

/-- The failure that a message is answered with. -/
def failure? : (r : Request) → r.Answer → Option Failure
  | .run _, .error failure => some failure
  | .query _, .error failure => some failure
  | .run _, .ok _ => none
  | .query _, .ok _ => none

/-- The rows that a message is answered with. -/
def rows? : (r : Request) → r.Answer → Option (List Row)
  | .query _, .ok rows => some rows
  | .query _, .error _ => none
  | .run _, _ => none

end Request

namespace Traffic

/-- The messages in their order. -/
def sent (past : Traffic) : List Request := past.map (·.1)

/-- The rows of each question that was answered. -/
def answers (past : Traffic) : List (List Row) := past.filterMap fun e => e.1.rows? e.2

/-- No message failed. -/
def Succeeded (past : Traffic) : Prop := ∀ e ∈ past, e.1.failure? e.2 = none

/-- The last message failed and no other one. -/
def Refused (past : Traffic) (failure : Failure) : Prop :=
  ∃ before e, past = before ++ [e] ∧ Succeeded before ∧ e.1.failure? e.2 = some failure

/-- Messages were sent in their order: all of them, or up to the first one that failed. -/
def Follows {α : Type} (messages : List Request) (past : Traffic) : Except Failure α → Prop
  | .ok _ => past.Succeeded ∧ past.sent = messages
  | .error failure => past.Refused failure ∧ past.sent <+: messages

variable {α β : Type} {past later : Traffic} {messages others : List Request} {failure : Failure}

theorem sent_append : sent (past ++ later) = past.sent ++ later.sent := List.map_append

theorem answers_append : answers (past ++ later) = past.answers ++ later.answers := List.filterMap_append

theorem Succeeded.append (first : past.Succeeded) (second : later.Succeeded) : Succeeded (past ++ later) :=
  List.forall_mem_append.2 ⟨first, second⟩

theorem Succeeded.absurd (succeeded : past.Succeeded) {e : Exchange Request.Answer} (member : e ∈ past)
    (failed : e.1.failure? e.2 = some failure) : False := by
  cases (succeeded e member).symm.trans failed

theorem Succeeded.append_refused (first : past.Succeeded) (second : later.Refused failure) :
    Refused (past ++ later) failure := by
  obtain ⟨before, e, rfl, succeeded, failed⟩ := second
  exact ⟨past ++ before, e, (List.append_assoc _ _ _).symm, first.append succeeded, failed⟩

/-- A message that failed is the one that the others ended with. -/
theorem Refused.last {before after : Traffic} {e : Exchange Request.Answer} {failure' : Failure}
    (refused : past.Refused failure) (split : past = before ++ e :: after) (failed : e.1.failure? e.2 = some failure') :
    after = [] ∧ failure' = failure := by
  obtain ⟨others, last, same, succeeded, ended⟩ := refused
  rw [split] at same
  -- Were there more after it, it would be one of those before the last message.
  obtain rfl | ⟨after, x, rfl⟩ := List.eq_nil_or_concat after
  · obtain ⟨rfl, rfl⟩ := List.append_inj' same rfl |>.imp_right List.singleton_inj.1
    exact ⟨rfl, Option.some.inj (failed.symm.trans ended)⟩
  · rw [List.concat_eq_append, ← List.cons_append, ← List.append_assoc] at same
    obtain ⟨rfl, -⟩ := List.append_inj' same rfl
    exact (succeeded.absurd (by simp) failed).elim

theorem Refused.not_succeeded (refused : past.Refused failure) : ¬past.Succeeded := by
  obtain ⟨before, e, rfl, -, failed⟩ := refused
  exact fun succeeded => succeeded.absurd (by simp) failed

theorem Refused.sent_ne_nil (refused : past.Refused failure) : past.sent ≠ [] := by
  obtain ⟨before, e, rfl, -⟩ := refused
  simp [sent]

/-- A single message, with the result that its answer is. -/
theorem Follows.single (e : Exchange Request.Answer) {r : Except Failure α}
    (told : e.1.failure? e.2 = match r with
      | .ok _ => none
      | .error failure => some failure) : Follows [e.1] [e] r := by
  cases r with
  | ok a => exact ⟨List.forall_mem_singleton.2 told, rfl⟩
  | error failure => exact ⟨⟨[], e, rfl, List.forall_mem_nil _, told⟩, List.prefix_rfl⟩

theorem Follows.append {a : α} {r : Except Failure β} (first : Follows messages past (.ok a))
    (second : Follows others later r) : Follows (messages ++ others) (past ++ later) r := by
  obtain ⟨succeeded, same⟩ := first
  cases r with
  | ok b => exact ⟨succeeded.append second.1, by rw [sent_append, same, second.2]⟩
  | error failure =>
    refine ⟨succeeded.append_refused second.1, ?_⟩
    rw [sent_append, same]
    exact (List.prefix_append_right_inj messages).2 second.2

theorem Follows.stopped (first : Follows (α := α) messages past (.error failure)) (others : List Request) :
    Follows (α := β) (messages ++ others) past (.error failure) :=
  ⟨first.1, first.2.trans (List.prefix_append messages others)⟩

/-- What was sent is among the messages. -/
theorem Follows.sent_prefix {r : Except Failure α} (follows : Follows messages past r) : past.sent <+: messages := by
  cases r with
  | ok => exact follows.2 ▸ List.prefix_rfl
  | error => exact follows.2

/-- Statements that are sent for their effect answer no rows. -/
theorem Follows.answers_eq_nil {ss : List Statement} {r : Except Failure α}
    (follows : Follows (ss.map .run) past r) : past.answers = [] := by
  refine List.filterMap_eq_nil_iff.2 fun e member => ?_
  obtain ⟨s, -, same⟩ := List.mem_map.1 (follows.sent_prefix.subset (List.mem_map_of_mem member))
  obtain ⟨r, reply⟩ := e
  cases same
  rfl

end Traffic

open Traffic

section Following

/-- Any message may be sent, and anything may be answered. -/
def free : Protocol Request.Answer := ⟨fun _ => True, fun _ _ => True⟩

/-- Sends statements for their effect. -/
def runAll (ss : List Statement) : Sql Unit := ss.forM run

theorem runAll_append (ss ss' : List Statement) :
    runAll (ss ++ ss') = (do runAll ss; runAll ss') := List.forM_append

@[simp] theorem runAll_nil : runAll [] = pure () := rfl

theorem runAll_cons (s : Statement) (ss : List Statement) : runAll (s :: ss) = (do run s; runAll ss) := List.forM_cons

/-- A loop whose turns send statements sends those of all turns. -/
theorem forIn_eq_runAll {γ : Type} {turn : γ → PUnit → Sql (ForInStep PUnit)} (statements : γ → List Statement)
    (each : ∀ x, turn x ⟨⟩ = (do runAll (statements x); pure (.yield ⟨⟩))) (xs : List γ) :
    forIn xs PUnit.unit turn = runAll (xs.flatMap statements) := by
  induction xs with
  | nil => rfl
  | cons x rest ih =>
    rw [List.forIn_cons, each, List.flatMap_cons, runAll_append, bind_assoc, ← ih]
    simp only [pure_bind]

theorem runAll_follows (ss : List Statement) : (ExceptT.run (runAll ss)).Obeys free (Follows (ss.map .run)) := by
  induction ss with
  | nil => exact ⟨List.forall_mem_nil _, rfl⟩
  | cons s rest ih =>
    rw [runAll_cons]
    have sends : (ExceptT.run (run s)).Obeys free (Follows [.run s]) :=
      ⟨trivial, fun reply _ => .single _ (by cases reply <;> rfl)⟩
    refine sends.bind_except (fun past _ first => ?_) fun past failure first => ?_
    · exact ih.mono fun later r => first.append
    · exact first.stopped _

theorem forIn_run {γ : Type} (statement : γ → Statement) (xs : List γ) :
    (forIn xs PUnit.unit fun x _ => do run (statement x); pure (.yield PUnit.unit)) = runAll (xs.map statement) := by
  rw [forIn_eq_runAll (fun x => [statement x]) fun x => by rw [runAll_cons, runAll_nil, bind_assoc]; rfl,
    List.map_eq_flatMap]

theorem lift_ok {α : Type} (a : α) : lift (.ok a) = pure a := rfl

end Following

/-- A message that neither opens a transaction nor commits one. -/
def Request.Inner (r : Request) : Prop := r ≠ .run .start ∧ r ≠ .run .commit

theorem inner_query (s : Statement) : (Request.query s).Inner := ⟨Request.noConfusion, Request.noConfusion⟩

/-- What binds a parameter is neither of these. -/
theorem inner_run {s : Statement} (binds : s.params ≠ []) : (Request.run s).Inner :=
  ⟨fun same => binds (Request.run.inj same ▸ rfl), fun same => binds (Request.run.inj same ▸ rfl)⟩

theorem run_ne {s s' : Statement} (texts : s.text ≠ s'.text) : Request.run s ≠ .run s' :=
  fun same => texts (congrArg Statement.text (Request.run.inj same))

theorem inner_isolate : (Request.run .isolate).Inner := ⟨run_ne (by decide), run_ne (by decide)⟩

theorem commit_not_mem_start {body : List Request} (commit : .run .commit ∉ body) :
    .run .commit ∉ Request.run .start :: body :=
  List.not_mem_cons_of_ne_of_not_mem (run_ne (by decide)) commit

/-- Messages of one transaction: it is opened by the first one, and by no other, and a commit comes last or not at
all. -/
def Enclosed (messages : List Request) : Prop :=
  ∃ body, .run .start ∉ body ∧ .run .commit ∉ body ∧
    (messages = .run .start :: body ∨ messages = .run .start :: body ++ [.run .commit])

/-- The first messages of a transaction are messages of one. -/
theorem enclosed_of_prefix {messages body : List Request} (inner : ∀ r ∈ body, r.Inner) (begun : messages ≠ [])
    (first : messages <+: .run .start :: body ++ [.run .commit]) : Enclosed messages := by
  have apart {part : List Request} (part_body : part <+: body) :
      .run .start ∉ part ∧ .run .commit ∉ part :=
    ⟨fun member => (inner _ (part_body.subset member)).1 rfl, fun member => (inner _ (part_body.subset member)).2 rfl⟩
  obtain rfl | first := List.prefix_concat_iff.1 first
  · obtain ⟨start, commit⟩ := apart List.prefix_rfl
    exact ⟨body, start, commit, .inr rfl⟩
  · obtain rfl | ⟨part, rfl, part_body⟩ := List.prefix_cons_iff.1 first
    · exact absurd rfl begun
    · obtain ⟨start, commit⟩ := apart part_body
      exact ⟨part, start, commit, .inl rfl⟩

/-- Before the last message of a transaction nothing is committed. -/
theorem Enclosed.not_commit {before : List Request} {last : Request} (enclosed : Enclosed (before ++ [last])) :
    .run .commit ∉ before := by
  obtain ⟨body, -, commit, same | same⟩ := enclosed
  · exact fun member => commit_not_mem_start commit (same ▸ List.mem_append_left _ member)
  · obtain ⟨rfl, -⟩ := List.append_inj' same rfl
    exact commit_not_mem_start commit

section Ledgers

variable {holder : Address} {failure : Failure}

/-- A claim cannot be read without its amount. -/
theorem ofRow_of_amount {row : Row} (bad : row.word "amount" = .error failure) :
    ∃ failure, RewardClaim.ofRow holder row = .error failure := by
  unfold RewardClaim.ofRow
  cases row.height "block_height" with
  | error failure => exact ⟨failure, rfl⟩
  | ok height =>
    cases row.height "log_index" with
    | error failure => exact ⟨failure, rfl⟩
    | ok place =>
      cases row.time "block_time" with
      | error failure => exact ⟨failure, rfl⟩
      | ok time =>
        rw [bad]
        exact ⟨failure, rfl⟩

/-- A ledger is not read if one of its amounts is no word. -/
theorem ledger_checked {rows : List Row} (bad : .error failure ∈ rows.map (·.word "amount")) :
    ∃ failure, rows.mapM (RewardClaim.ofRow holder) = .error failure := by
  induction rows with
  | nil => cases bad
  | cons row rest ih =>
    rw [List.mapM_cons]
    cases read : RewardClaim.ofRow holder row with
    | error failure => exact ⟨failure, rfl⟩
    | ok claim =>
      obtain mine | others := List.mem_cons.1 bad
      · have unread : ∃ failure, RewardClaim.ofRow holder row = .error failure := ofRow_of_amount mine.symm
        rw [read] at unread
        cases unread.choose_spec
      · obtain ⟨failure, unread⟩ := ih others
        rw [unread]
        exact ⟨failure, rfl⟩

end Ledgers

/-- The course of work in one transaction: what it sends first, what it asks then, how it reads the rows that it is
answered, and what it sends after that. -/
structure Course (α : Type) where
  {Reading : Type}
  opening : List Statement
  question : Option Statement
  read : List Row → Except Failure Reading
  closing : Reading → List Statement
  result : Reading → α
  /-- The amounts that are read in the rows. -/
  amounts : List Row → List (Except Failure Word)
  checked : ∀ rows failure, .error failure ∈ amounts rows → ∃ failure, read rows = .error failure
  inner_opening : ∀ s ∈ opening, (Request.run s).Inner
  inner_closing : ∀ x, ∀ s ∈ closing x, (Request.run s).Inner

namespace Course

variable {α : Type} (c : Course α)

/-- The messages up to the question. -/
def first : List Request := (.start :: c.opening).map .run ++ c.question.toList.map .query

/-- All messages, where the rows are read so. -/
def whole (x : c.Reading) : List Request := c.first ++ (c.closing x ++ [Statement.commit]).map .run

/-- Sends the messages up to the question, for the rows that answer it. -/
def opened : Sql (List Row) := do
  runAll (.start :: c.opening)
  c.question.elim (pure []) query

/-- Work that takes this course. -/
def work : Sql α := do
  let x ← lift (c.read (← c.opened))
  runAll (c.closing x ++ [.commit])
  return c.result x

/-- These rows are the answer, if something was asked. -/
def Answered (past : Traffic) (rows : List Row) : Prop :=
  past.answers.flatten = rows ∧ ∀ others ∈ past.answers, others = rows

variable {c} {past later : Traffic} {rows : List Row} {result : Except Failure α}

theorem Answered.append (answered : Answered past rows) (nothing : later.answers = []) :
    Answered (past ++ later) rows := by
  rwa [Answered, Traffic.answers_append, nothing, List.append_nil]

/-- What is known once the rows are there, or before. -/
def Opened (c : Course α) (past : Traffic) (result : Except Failure (List Row)) : Prop :=
  Follows c.first past result ∧
    match result with
    | .ok rows => Answered past rows
    | .error _ => past.answers = []

theorem opened_obeys (c : Course α) : (ExceptT.run c.opened).Obeys free c.Opened := by
  refine (runAll_follows _).bind_except (fun past _ sent => ?_) fun past failure sent =>
    ⟨sent.stopped _, sent.answers_eq_nil⟩
  have nothing : answers past = [] := sent.answers_eq_nil
  cases asked : c.question with
  | none =>
    have all : c.first = (Statement.start :: c.opening).map .run := by simp [first, asked]
    have opened : c.Opened past (.ok []) := ⟨all ▸ sent, by simp [Answered, nothing]⟩
    exact obeys_done opened
  | some q =>
    have all : c.first = (Statement.start :: c.opening).map .run ++ [.query q] := by simp [first, asked]
    refine ⟨trivial, fun reply _ => ?_⟩
    have asks : Follows [.query q] [⟨.query q, reply⟩] reply := .single _ (by cases reply <;> rfl)
    refine ⟨all ▸ sent.append asks, ?_⟩
    have answer : answers (past ++ [⟨.query q, reply⟩]) = answers [⟨.query q, reply⟩] := by
      rw [Traffic.answers_append, nothing, List.nil_append]
    -- Nothing was asked before, so the rows of this answer are all.
    cases reply with
    | ok rows =>
      have answered : Answered (past ++ [⟨.query q, .ok rows⟩]) rows := by
        rw [Answered, answer]
        exact ⟨List.append_nil rows, fun others => List.mem_singleton.1⟩
      exact answered
    | error failure => exact answer

/-- How work can end that takes a course: it is completed, it cannot read the rows, or a message fails, up to the question
or after its rows have been read. -/
inductive Ended (c : Course α) (past : Traffic) : Except Failure α → Prop where
  | completed {rows : List Row} {x : c.Reading} (succeeded : past.Succeeded) (answered : Answered past rows)
    (read : c.read rows = .ok x) (all : past.sent = c.whole x) : Ended c past (.ok (c.result x))
  | unread {rows : List Row} {failure : Failure} (succeeded : past.Succeeded) (answered : Answered past rows)
    (unread : c.read rows = .error failure) (opened : past.sent = c.first) : Ended c past (.error failure)
  | refused {failure : Failure} (refused : past.Refused failure)
    (read : ∀ rows ∈ past.answers, ∃ x, c.read rows = .ok x)
    (part : past.sent <+: c.first ∨ ∃ x, past.sent <+: c.whole x) : Ended c past (.error failure)

theorem work_ended (c : Course α) : (ExceptT.run c.work).Obeys free c.Ended := by
  -- What was sent and answered up to the question is carried over the reading, which sends nothing.
  refine c.opened_obeys.bind_except (fun past rows ⟨sent, answered⟩ => ?_) fun past failure ⟨sent, nothing⟩ =>
    .refused sent.1 (fun rows among => nomatch nothing ▸ among) (.inl sent.2)
  cases read : c.read rows with
  | error failure =>
    have ended : c.Ended past (.error failure) := .unread sent.1 answered read sent.2
    exact obeys_done ended
  | ok x =>
    refine (runAll_follows (c.closing x ++ [.commit])).bind_except (fun later _ closed => ?_)
      fun later failure closed => ?_
    · have all := sent.append closed (r := .ok ())
      have ended : c.Ended (past ++ later) (.ok (c.result x)) :=
        .completed all.1 (answered.append closed.answers_eq_nil) read all.2
      rw [← List.append_nil later] at ended
      exact ended
    · have all := sent.append (β := Unit) closed
      have answered := answered.append closed.answers_eq_nil
      exact .refused all.1 (fun others among => ⟨x, answered.2 others among ▸ read⟩) (.inr ⟨x, all.2⟩)

section Enclosing

theorem first_eq (c : Course α) :
    c.first = .run .start :: (c.opening.map .run ++ c.question.toList.map .query) := rfl

theorem whole_eq (c : Course α) (x : c.Reading) : c.whole x =
    .run .start :: (c.opening.map .run ++ c.question.toList.map .query ++ (c.closing x).map .run) ++
      [.run .commit] := by
  simp [whole, first]

theorem inner_first (c : Course α) {r : Request}
    (member : r ∈ c.opening.map Request.run ++ c.question.toList.map .query) : r.Inner := by
  obtain member | member := List.mem_append.1 member
  · obtain ⟨s, among, rfl⟩ := List.mem_map.1 member
    exact c.inner_opening s among
  · obtain ⟨s, -, rfl⟩ := List.mem_map.1 member
    exact inner_query s

theorem enclosed_of_whole {messages : List Request} (c : Course α) (x : c.Reading) (begun : messages ≠ [])
    (part : messages <+: c.whole x) : Enclosed messages := by
  rw [whole_eq] at part
  refine enclosed_of_prefix (fun r member => ?_) begun part
  obtain member | member := List.mem_append.1 member
  · exact c.inner_first member
  · obtain ⟨s, among, rfl⟩ := List.mem_map.1 member
    exact c.inner_closing x s among

theorem enclosed_of_first {messages : List Request} (c : Course α) (begun : messages ≠ [])
    (part : messages <+: c.first) : Enclosed messages :=
  enclosed_of_prefix (fun _ => c.inner_first) begun (part.trans (List.prefix_append _ _))

theorem commit_not_mem_first (c : Course α) : .run .commit ∉ c.first := by
  rw [first_eq]
  exact commit_not_mem_start fun member => (c.inner_first member).2 rfl

theorem Ended.enclosed (ended : c.Ended past result) : Enclosed past.sent := by
  cases ended with
  | completed _ _ _ all =>
    rw [all]
    exact c.enclosed_of_whole _ (List.cons_ne_nil _ _) List.prefix_rfl
  | unread _ _ _ opened =>
    rw [opened]
    exact c.enclosed_of_first (List.cons_ne_nil _ _) List.prefix_rfl
  | refused refused _ part =>
    obtain part | ⟨x, part⟩ := part
    · exact c.enclosed_of_first refused.sent_ne_nil part
    · exact c.enclosed_of_whole x refused.sent_ne_nil part

end Enclosing

/-- What has been exchanged with the database in one transaction, and the result: all that the course calls for has been
carried out, or nothing of it lasts. -/
structure AllOrNothing (c : Course α) (past : Traffic) (result : Except Failure α) : Prop where
  enclosed : Enclosed past.sent
  /-- After a message that failed nothing is sent, and nothing was committed before it. -/
  stopped : ∀ before e after failure, past = before ++ e :: after → e.1.failure? e.2 = some failure →
    after = [] ∧ .run .commit ∉ Traffic.sent before ∧ result = .error failure
  /-- After rows that cannot be read nothing is sent. -/
  unread : ∀ rows ∈ past.answers, ∀ failure, c.read rows = .error failure →
    past.sent = c.first ∧ .run .commit ∉ past.sent ∧ result = .error failure
  /-- That is so where an amount is no word. -/
  undecodable : ∀ rows ∈ past.answers, (∃ failure, .error failure ∈ c.amounts rows) →
    past.sent = c.first ∧ .run .commit ∉ past.sent ∧ ∃ failure, result = .error failure
  returned : ∀ a, result = .ok a ↔ past.Succeeded ∧
    ∃ x, c.read past.answers.flatten = .ok x ∧ past.sent = c.whole x ∧ c.result x = a
  committed : (∃ a, result = .ok a) ↔ (⟨.run .commit, .ok ()⟩ : Exchange Request.Answer) ∈ past

namespace Ended

theorem stopped (ended : c.Ended past result) {before after : Traffic} {e : Exchange Request.Answer}
    {failure : Failure} (split : past = before ++ e :: after) (failed : e.1.failure? e.2 = some failure) :
    after = [] ∧ .run .commit ∉ Traffic.sent before ∧ result = .error failure := by
  have member : e ∈ past := by simp [split]
  have enclosed := ended.enclosed
  cases ended with
  | completed succeeded => exact (succeeded.absurd member failed).elim
  | unread succeeded => exact (succeeded.absurd member failed).elim
  | refused refused =>
    obtain ⟨rfl, rfl⟩ := refused.last split failed
    rw [split, Traffic.sent_append] at enclosed
    exact ⟨rfl, enclosed.not_commit, rfl⟩

theorem unread_rows (ended : c.Ended past result) {rows : List Row} (answered : rows ∈ past.answers)
    {failure : Failure} (bad : c.read rows = .error failure) :
    past.sent = c.first ∧ .run .commit ∉ past.sent ∧ result = .error failure := by
  cases ended with
  | completed _ known read _ =>
    rw [known.2 rows answered, read] at bad
    cases bad
  | unread _ known read opened =>
    rw [known.2 rows answered, read] at bad
    cases bad
    exact ⟨opened, opened ▸ c.commit_not_mem_first, rfl⟩
  | refused _ read _ =>
    obtain ⟨x, read⟩ := read rows answered
    cases read.symm.trans bad

theorem returned (ended : c.Ended past result) (a : α) : result = .ok a ↔ past.Succeeded ∧
    ∃ x, c.read past.answers.flatten = .ok x ∧ past.sent = c.whole x ∧ c.result x = a := by
  cases ended with
  | @completed rows x succeeded known read all =>
    rw [known.1]
    constructor
    · intro same
      exact ⟨succeeded, x, read, all, Except.ok.inj same⟩
    · rintro ⟨-, y, same, -, rfl⟩
      cases Except.ok.inj (read.symm.trans same)
      rfl
  | unread _ known read _ =>
    rw [known.1, read]
    simp
  | refused refused => simp [refused.not_succeeded]

theorem committed (ended : c.Ended past result) :
    (∃ a, result = .ok a) ↔ (⟨.run .commit, .ok ()⟩ : Exchange Request.Answer) ∈ past := by
  have enclosed := ended.enclosed
  cases ended with
  | @completed rows x succeeded _ _ all =>
    refine ⟨fun _ => ?_, fun _ => ⟨_, rfl⟩⟩
    have last : .run .commit ∈ past.sent := by
      rw [all, whole_eq]
      simp
    obtain ⟨⟨r, reply⟩, member, rfl⟩ := List.mem_map.1 last
    cases reply with
    | ok => exact member
    | error failure => cases succeeded _ member
  | unread _ _ _ opened =>
    exact iff_of_false (fun ⟨_, wrong⟩ => (nomatch wrong)) fun member =>
      c.commit_not_mem_first (opened ▸ List.mem_map_of_mem member)
  | refused refused =>
    -- A commit would be the last message, which is the one that failed.
    obtain ⟨before, e, rfl, -, failed⟩ := refused
    rw [Traffic.sent_append] at enclosed
    refine iff_of_false (fun ⟨_, wrong⟩ => (nomatch wrong)) fun member => ?_
    obtain member | member := List.mem_append.1 member
    · exact enclosed.not_commit (List.mem_map_of_mem member)
    · cases List.mem_singleton.1 member
      cases failed

theorem allOrNothing (ended : c.Ended past result) : c.AllOrNothing past result where
  enclosed := ended.enclosed
  stopped _ _ _ _ := ended.stopped
  unread _ answered _ := ended.unread_rows answered
  undecodable rows answered := by
    rintro ⟨_, bad⟩
    obtain ⟨failure, unread⟩ := c.checked rows _ bad
    obtain ⟨opened, commit, failed⟩ := ended.unread_rows answered unread
    exact ⟨opened, commit, failure, failed⟩
  returned := ended.returned
  committed := ended.committed

end Ended

/-! ### The courses of the writes that take several statements -/

/-- Writes nodes. -/
def ofNodes (nodes : List Node) : Course Unit where
  opening := nodes.map fun n => .upsert "nodes" ["node_id", "block_height"]
    (Statement.others n.columns ["node_id", "block_height"]) n.columns
  question := none
  read _ := .ok ()
  closing _ := []
  result := id
  amounts _ := []
  checked _ _ wrong := nomatch wrong
  inner_opening := by
    intro s member
    obtain ⟨n, -, rfl⟩ := List.mem_map.1 member
    exact inner_run (List.cons_ne_nil _ _)
  inner_closing _ _ wrong := nomatch wrong

/-- The statements that write a figure and point its counter at the latest row. -/
def figureStatements (s : ValidatorStatistic) : List Statement := [s.upsert, setCounter s.validatorId s.figure]

theorem inner_figureStatements {f : ValidatorStatistic} {s : Statement} (member : s ∈ figureStatements f) :
    (Request.run s).Inner := by
  obtain rfl | member := List.mem_cons.1 member
  · exact inner_run (List.cons_ne_nil _ _)
  · cases List.mem_singleton.1 member
    exact inner_run (List.cons_ne_nil _ _)

/-- The figures of a snapshot at a height, in the order in which they are written. -/
def figuresOf (height : Nat) (time : Instant) (s : ValidatorSnapshot) : List ValidatorStatistic :=
  [⟨s.validatorId, height, time, .activeNodes, s.activeNodes⟩,
    ⟨s.validatorId, height, time, .linkedNodes, s.linkedNodes⟩,
    ⟨s.validatorId, height, time, .totalStake, s.totalStake⟩]

/-- Writes the figures of snapshots at a height. -/
def ofSnapshots (snapshots : List ValidatorSnapshot) (height : Nat) (time : Instant) : Course Unit where
  opening := snapshots.flatMap fun s => (figuresOf height time s).flatMap figureStatements
  question := none
  read _ := .ok ()
  closing _ := []
  result := id
  amounts _ := []
  checked _ _ wrong := nomatch wrong
  inner_opening := by
    intro s member
    obtain ⟨_, -, member⟩ := List.mem_flatMap.1 member
    obtain ⟨_, -, member⟩ := List.mem_flatMap.1 member
    exact inner_figureStatements member
  inner_closing _ _ wrong := nomatch wrong

/-- The amount in the first row. -/
def firstAmount : List Row → Except Failure Word
  | [] => .error noRow
  | row :: _ => row.firstWord

/-- Computes a figure, writes its row and its counter. -/
def ofCalculation (figure : ValidatorFigure) (at_ : Calculation) : Course Word where
  opening := [.isolate]
  question := some ⟨amount figure, [.word at_.validatorId, .height at_.height]⟩
  read := firstAmount
  closing total := figureStatements ⟨at_.validatorId, at_.height, at_.time, figure, total⟩
  result := id
  amounts rows := (rows.take 1).map (·.firstWord)
  checked := by
    rintro (_ | ⟨row, rest⟩) failure bad
    · cases bad
    · exact ⟨failure, (List.mem_singleton.1 bad).symm⟩
  inner_opening _ member := List.mem_singleton.1 member ▸ inner_isolate
  inner_closing _ _ := inner_figureStatements

/-- Records a claim and builds the holder's rows anew. -/
def ofClaim (claim : RewardClaim) : Course Unit where
  opening := [lockHolder claim.holder,
    .upsert "reward_claims" ["holder", "block_height", "log_index"] ["amount", "block_time"] claim.columns]
  question := some (ledger claim.holder)
  read rows := rows.mapM (RewardClaim.ofRow claim.holder)
  closing claims := dropTotals claim.holder claim.height ::
    ((RewardClaim.rows claims).filter (claim.height ≤ ·.height)).map fun row =>
      .insert "delegator_statistics" row.columns
  result _ := ()
  amounts rows := rows.map (·.word "amount")
  checked _ _ := ledger_checked
  inner_opening := by
    intro s member
    obtain rfl | member := List.mem_cons.1 member
    · exact inner_run (List.cons_ne_nil _ _)
    · cases List.mem_singleton.1 member
      exact inner_run (List.cons_ne_nil _ _)
  inner_closing claims := by
    intro s member
    obtain rfl | member := List.mem_cons.1 member
    · exact inner_run (List.cons_ne_nil _ _)
    · obtain ⟨row, -, rfl⟩ := List.mem_map.1 member
      exact inner_run (List.cons_ne_nil _ _)

/-- After the rows from the claim's height on have been removed, those are inserted at whose height the total of the
ledger changes, each with the total up to it and the time of the first claim there. -/
theorem mem_closing_ofClaim {claim : RewardClaim} {claims : List RewardClaim} (sorted : RewardClaim.Sorted claims)
    {s : Statement} :
    s ∈ (ofClaim claim).closing claims ↔ s = dropTotals claim.holder claim.height ∨
      ∃ c, claims.find? (·.height = c.height) = some c ∧ claim.height ≤ c.height ∧
        let total := Word.clamp (RewardClaim.sum (claims.filter (·.height ≤ c.height)))
        Word.clamp (RewardClaim.sum (claims.filter (·.height < c.height))) < total ∧
        s = .insert "delegator_statistics" (c.row total).columns := by
  change s ∈ _ :: _ ↔ _
  simp only [List.mem_cons, List.mem_map, List.mem_filter, decide_eq_true_eq, RewardClaim.mem_rows_iff sorted]
  refine or_congr_right ⟨?_, ?_⟩
  · rintro ⟨row, ⟨⟨c, found, form, more⟩, late⟩, rfl⟩
    have height : row.height = c.height := congrArg (·.height) form
    rw [height] at found form more late
    subst form
    exact ⟨c, found, late, more, rfl⟩
  · rintro ⟨c, found, late, more, rfl⟩
    exact ⟨c.row _, ⟨⟨c, found, rfl, more⟩, late⟩, rfl⟩

end Course

section Writes

theorem saveNodes_eq {nodes : List Node} (filled : nodes ≠ []) : saveNodes nodes = (Course.ofNodes nodes).work := by
  rw [saveNodes, if_neg (by simpa using filled), transaction]
  dsimp only
  rw [forIn_run]
  simp only [Course.work, Course.opened, Course.ofNodes, runAll_cons, runAll_nil, List.nil_append, Option.elim_none,
    bind_assoc, pure_bind, lift_ok]

theorem saveFigure_eq (f : ValidatorStatistic) : saveFigure f = runAll (Course.figureStatements f) := by
  simp only [saveFigure, Course.figureStatements, runAll_cons, runAll_nil]
  simp

theorem saveSnapshots_eq (snapshots : List ValidatorSnapshot) (height : Nat) (time : Instant) :
    saveSnapshots snapshots height time = (Course.ofSnapshots snapshots height time).work := by
  rw [saveSnapshots, transaction]
  rw [forIn_eq_runAll (fun s => (Course.figuresOf height time s).flatMap Course.figureStatements)
    (fun s => by simp [saveFigure_eq, Course.figuresOf, runAll_append])]
  simp only [Course.work, Course.opened, Course.ofSnapshots, runAll_cons, runAll_nil, List.nil_append, Option.elim_none,
    bind_assoc, pure_bind, lift_ok]

theorem firstAmount_eq (s : Statement) :
    (do let row ← queryOne s; lift row.firstWord) = (do lift (Course.firstAmount (← query s))) := by
  rw [queryOne, bind_assoc]
  refine congrArg (query s >>= ·) (funext fun rows => ?_)
  cases rows <;> rfl

theorem calculate_eq (figure : ValidatorFigure) (at_ : Calculation) :
    calculate figure at_ = (Course.ofCalculation figure at_).work := by
  rw [calculate, isolated, transaction]
  simp only [← bind_assoc, firstAmount_eq]
  simp only [bind_assoc, pure_bind, Course.work, Course.opened, Course.ofCalculation, Option.elim_some, runAll_cons,
    runAll_nil, Course.figureStatements, List.cons_append, List.nil_append]
  rfl

theorem recordClaim_eq (claim : RewardClaim) : recordClaim claim = (Course.ofClaim claim).work := by
  rw [recordClaim, transaction]
  simp only [forIn_run]
  simp only [bind_assoc, pure_bind, Course.work, Course.opened, Course.ofClaim, Option.elim_some, runAll_cons,
    runAll_nil, runAll_append, List.cons_append]

end Writes

section Worlds

variable {α σ : Type} (answer : (r : Request) → σ → r.Answer × σ) (s : σ)

/-- What some work exchanges with the database in a world. -/
def traffic (work : Sql α) : Traffic := ((ExceptT.run work).run (noting answer) (s, [])).2.2

/-- What some work ends with in a world. -/
def outcome (work : Sql α) : Except Failure α := ((ExceptT.run work).run answer s).1

/-- Some work takes a course in a world. -/
def Course.Governs (c : Course α) (work : Sql α) : Prop :=
  c.AllOrNothing (traffic answer s work) (outcome answer s work)

theorem Course.governs {c : Course α} {work : Sql α} (same : work = c.work) : c.Governs answer s work := by
  subst same
  obtain ⟨past, ran, ended, -⟩ := c.work_ended.noted (fun r s _ => trivial) s []
  unfold Governs traffic outcome
  rw [ran]
  exact ended.allOrNothing

end Worlds
end Sql

open Sql

/-- The writes that take several statements are all or nothing, whatever the database answers. Their statements are
sent inside one transaction. After one that fails nothing is sent any more, nothing has been committed, and its
failure is the result; rows that cannot be read, because an amount is no word for instance, stop the work in the same
way. Work returns a result if and only if everything has been carried out, which is when the commit has been, and what
has been sent then is all that the request and the rows call for. -/
theorem transactions_all_or_nothing {σ : Type} (answer : (r : Sql.Request) → σ → r.Answer × σ) (s : σ) :
    (∀ nodes : List Node, nodes ≠ [] →
      (Course.ofNodes nodes).Governs answer s (StoreRequest.saveNodes nodes).onDatabase) ∧
    (∀ claim : RewardClaim,
      (Course.ofClaim claim).Governs answer s (StoreRequest.recordRewardClaim claim).onDatabase) ∧
    (∀ (snapshots : List ValidatorSnapshot) (height : Nat) (time : Instant),
      (Course.ofSnapshots snapshots height time).Governs answer s
        (StoreRequest.saveValidatorSnapshots snapshots height time).onDatabase) ∧
    (∀ (figure : ValidatorFigure) (at_ : Calculation),
      (Course.ofCalculation figure at_).Governs answer s (StoreRequest.calculate figure at_).onDatabase) :=
  ⟨fun _ filled => Course.governs answer s (saveNodes_eq filled),
    fun claim => Course.governs answer s (recordClaim_eq claim),
    fun snapshots height time => Course.governs answer s (saveSnapshots_eq snapshots height time),
    fun figure at_ => Course.governs answer s (calculate_eq figure at_)⟩

/-- A world that refuses the message after so many others, and answers every question with the same rows. -/
def refusing (place : Nat) (rows : List Row) : (r : Sql.Request) → Nat → r.Answer × Nat
  | .run _, n => (if n = place then .error noRow else .ok (), n + 1)
  | .query _, n => (if n = place then .error noRow else .ok rows, n + 1)

/-- A row of a ledger whose amount is no word. -/
def negativeClaim : Row :=
  [("block_height", .integer 7), ("log_index", .integer 0), ("block_time", .time default), ("amount", .numeric ⟨-1, 0⟩)]

/-- A commit that is refused, a ledger that cannot be read, and a figure that is written. -/
theorem transactions_all_or_nothing_refused :
    outcome (refusing 2 []) 0 (StoreRequest.saveNodes [default]).onDatabase = .error noRow ∧
    (.run .commit ∉ (traffic (refusing 9 [negativeClaim]) 0 (StoreRequest.recordRewardClaim default).onDatabase).sent ∧
      ∃ failure, outcome (refusing 9 [negativeClaim]) 0 (StoreRequest.recordRewardClaim default).onDatabase =
        .error failure) ∧
    ∃ total, outcome (refusing 9 [[("numeric", .numeric ⟨12, 0⟩)]]) 0
      (StoreRequest.calculate .totalStake ⟨1, 7, default⟩).onDatabase = .ok total := by
  refine ⟨?nodes, ?claim, ?figure⟩
  case nodes =>
    obtain ⟨nodes, -⟩ := transactions_all_or_nothing (refusing 2 []) 0
    exact ((nodes [default] (List.cons_ne_nil _ _)).stopped [_, _] ⟨.run .commit, _⟩ [] _ rfl rfl).2.2
  case claim =>
    obtain ⟨-, claims, -⟩ := transactions_all_or_nothing (refusing 9 [negativeClaim]) 0
    exact ((claims default).undecodable [negativeClaim] (List.mem_singleton.2 rfl) ⟨_, List.mem_singleton.2 rfl⟩).2
  case figure =>
    obtain ⟨-, -, -, figures⟩ := transactions_all_or_nothing (refusing 9 [[("numeric", .numeric ⟨12, 0⟩)]]) 0
    exact (figures .totalStake ⟨1, 7, default⟩).committed.2 (List.mem_of_getElem? (i := 5) rfl)

end StakeIndex
