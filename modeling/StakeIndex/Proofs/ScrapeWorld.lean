import StakeIndex.Index.ScrapeWorkers
import StakeIndex.Proofs.HandlerRequests
import StakeIndex.Proofs.Pools

/-!
The world in which the programs of a scrape take turns: the store, the headers that the workers keep, the queue
of logs, what was delivered, and whether the work is called off, which may happen at any moment. Beside it
stands what was taken from the queue and which events were stored for which logs.
-/
namespace StakeIndex

open Dialogue Job

structure ScrapeWorld where
  tables : Tables
  headers : HeaderCache
  calledOff : Bool
  waiting : List (Nat × RawLog)
  closed : Bool
  taken : List (Nat × RawLog)
  saved : List (Nat × ContractEvent)
  delivered : List ScrapeOutput

namespace ScrapeWorld

def start (t : Tables) (calledOff : Bool) : ScrapeWorld := ⟨t, .empty, calledOff, [], false, [], [], []⟩

/-- The event that a request stores. -/
def event? : StoreRequest → Option ContractEvent
  | .saveContractEvent e => some e
  | _ => none

/-- After a request that was made while a log was handled. -/
def perform (w : ScrapeWorld) (order : Nat) (r : StoreRequest) : ScrapeWorld :=
  { w with
    tables := (w.tables.perform r).2
    saved := w.saved ++ (event? r).toList.map fun e => (order, e) }

end ScrapeWorld

namespace Scraping

/-- The replies at a moment. The chain says anything; the store performs a request or refuses it. -/
def Replies : (r : ScrapeRequest) → ScrapeWorld → r.Answer → ScrapeWorld → Prop
  | .offer order log, w, reply, w' =>
    w.closed = false ∧ reply = true ∧ w' = { w with waiting := w.waiting ++ [(order, log)] } ∨
      w.closed = true ∧ reply = false ∧ w' = w
  | .close, w, _, w' => w' = { w with closed := true }
  | .isCalledOff, w, reply, w' => reply = w.calledOff ∧ w' = w
  | .take _, w, some e, w' =>
    ∃ rest, w.waiting = e :: rest ∧ w' = { w with waiting := rest, taken := w.taken ++ [e] }
  | .take heedsCancel, w, none, w' =>
    (w.waiting = [] ∧ w.closed = true ∨ heedsCancel = true ∧ w.calledOff = true) ∧ w' = w
  | .handling order (.store r), w, reply, w' =>
    reply = .ok (w.tables.perform r).1 ∧ w' = w.perform order r ∨ ∃ stop, reply = .error stop ∧ w' = w
  | .handling _ _, w, _, w' => w' = w
  | .knownHeader height, w, reply, w' => reply = w.headers.get? height ∧ w' = w
  | .rememberHeader height header, w, _, w' =>
    w' = { w with headers := w.headers.insert ⟨height, height⟩ (some header) }
  | .deliver output, w, _, w' => w' = { w with delivered := w.delivered ++ [output] }

/-- The replies when the work may be called off at any moment. -/
def Answers (r : ScrapeRequest) (w : ScrapeWorld) (reply : r.Answer) (w' : ScrapeWorld) : Prop :=
  ∃ off, (w.calledOff = true → off = true) ∧ Replies r { w with calledOff := off } reply w'

/-- The requests that change the queue, and those that change the store. -/
def changesQueue : ScrapeRequest → Bool
  | .offer .. => true
  | .close => true
  | .take _ => true
  | _ => false

def changesStore : ScrapeRequest → Bool
  | .handling _ (.store _) => true
  | _ => false

/-- All other requests leave the queue, or the store, as it is. -/
theorem answers_frame {r : ScrapeRequest} {w w' : ScrapeWorld} {reply : r.Answer}
    (answered : Answers r w reply w') :
    (changesQueue r = false → w'.closed = w.closed ∧ w'.taken = w.taken ∧ w'.waiting = w.waiting) ∧
      (changesStore r = false → w'.tables = w.tables ∧ w'.saved = w.saved) := by
  obtain ⟨off, -, answered⟩ := answered
  cases r with
  | offer =>
    rcases answered with ⟨-, -, rfl⟩ | ⟨-, -, rfl⟩
    · simp [changesQueue]
    · simp
  | take heedsCancel =>
    cases reply with
    | none =>
      obtain ⟨-, rfl⟩ := answered
      simp
    | some entry =>
      obtain ⟨rest, -, rfl⟩ := answered
      simp [changesQueue]
  | handling order r =>
    cases r with
    | store r =>
      rcases answered with ⟨-, rfl⟩ | ⟨-, -, rfl⟩
      · simp [changesStore, ScrapeWorld.perform]
      · simp
    | _ =>
      cases answered
      simp
  | isCalledOff =>
    obtain ⟨-, rfl⟩ := answered
    simp
  | knownHeader =>
    obtain ⟨-, rfl⟩ := answered
    simp
  | _ =>
    cases answered
    simp [changesQueue]

/-- What an exchange shows of the work of a worker. -/
inductive Mark where
  | took (e : Nat × RawLog)
  | saved (order : Nat) (e : ContractEvent)
  | delivered (output : ScrapeOutput)
  | ended (heedsCancel : Bool)

def mark? : Exchange ScrapeRequest.Answer → Option Mark
  | ⟨.take _, some e⟩ => some (.took e)
  | ⟨.take heedsCancel, none⟩ => some (.ended heedsCancel)
  | ⟨.isCalledOff, true⟩ => some (.ended true)
  | ⟨.handling order (.store (.saveContractEvent e)), .ok _⟩ => some (.saved order e)
  | ⟨.deliver output, _⟩ => some (.delivered output)
  | _ => none

def marks (past : List (Exchange ScrapeRequest.Answer)) : List Mark := past.filterMap mark?

@[simp] theorem marks_append (past later : List (Exchange ScrapeRequest.Answer)) :
    marks (past ++ later) = marks past ++ marks later := List.filterMap_append

namespace Mark

def took? : Mark → Option (Nat × RawLog)
  | took e => some e
  | _ => none

def saved? : Mark → Option (Nat × ContractEvent)
  | saved order e => some (order, e)
  | _ => none

def delivered? : Mark → Option ScrapeOutput
  | delivered output => some output
  | _ => none

end Mark

/-- How the world changes with what is shown. A queue that is closed and empty stays so. -/
structure Leaves (w : ScrapeWorld) (left : List Mark) (w' : ScrapeWorld) : Prop where
  taken : w'.taken = w.taken ++ left.filterMap Mark.took?
  saved : w'.saved = w.saved ++ left.filterMap Mark.saved?
  delivered : w'.delivered = w.delivered ++ left.filterMap Mark.delivered?
  calledOff : w.calledOff = true → w'.calledOff = true
  emptied : w.waiting = [] ∧ w.closed = true → w'.waiting = [] ∧ w'.closed = true
  ended : ∀ heedsCancel, .ended heedsCancel ∈ left →
    w'.waiting = [] ∧ w'.closed = true ∨ heedsCancel = true ∧ w'.calledOff = true

theorem Leaves.append {w w' w'' : ScrapeWorld} {left left' : List Mark} (first : Leaves w left w')
    (second : Leaves w' left' w'') : Leaves w (left ++ left') w'' where
  taken := by rw [second.taken, first.taken, List.filterMap_append, List.append_assoc]
  saved := by rw [second.saved, first.saved, List.filterMap_append, List.append_assoc]
  delivered := by rw [second.delivered, first.delivered, List.filterMap_append, List.append_assoc]
  calledOff off := second.calledOff (first.calledOff off)
  emptied empty := second.emptied (first.emptied empty)
  ended heedsCancel ended := by
    rcases List.mem_append.1 ended with ended | ended
    · exact (first.ended heedsCancel ended).imp second.emptied (And.imp_right second.calledOff)
    · exact second.ended heedsCancel ended

/-- Nothing is shown, and the queue does not get any shorter or longer once it is closed. -/
theorem leaves_quiet {w w' : ScrapeWorld} (taken : w'.taken = w.taken) (saved : w'.saved = w.saved)
    (delivered : w'.delivered = w.delivered) (calledOff : w.calledOff = true → w'.calledOff = true)
    (emptied : w.waiting = [] ∧ w.closed = true → w'.waiting = [] ∧ w'.closed = true) :
    Leaves w [] w' where
  taken := by simp [taken]
  saved := by simp [saved]
  delivered := by simp [delivered]
  calledOff := calledOff
  emptied := emptied
  ended := by simp

theorem mark_stored (order : Nat) (r : StoreRequest) (a : r.Result) :
    marks [⟨.handling order (.store r), .ok a⟩] =
      (ScrapeWorld.event? r).toList.map (Mark.saved order) := by
  cases r <;> rfl

theorem mark_refused (order : Nat) (r : StoreRequest) (stop : Stop) :
    marks [⟨.handling order (.store r), .error stop⟩] = [] := by
  cases r <;> rfl

theorem answers_leaves {r : ScrapeRequest} {w w' : ScrapeWorld} {reply : r.Answer}
    (answered : Answers r w reply w') : Leaves w (marks [⟨r, reply⟩]) w' := by
  obtain ⟨off, later, answered⟩ := answered
  cases r with
  | offer order log =>
    rcases answered with ⟨open_, rfl, rfl⟩ | ⟨closed, rfl, rfl⟩
    · exact leaves_quiet rfl rfl rfl later (by simp_all)
    · exact leaves_quiet rfl rfl rfl later (by simp)
  | close =>
    cases answered
    exact leaves_quiet rfl rfl rfl later (by simp_all)
  | isCalledOff =>
    obtain ⟨seen, rfl⟩ := answered
    cases reply with
    | false => exact leaves_quiet rfl rfl rfl later (by simp)
    | true => constructor <;> simp_all [marks, mark?, Mark.took?, Mark.saved?, Mark.delivered?]
  | take heedsCancel =>
    cases reply with
    | some e =>
      obtain ⟨rest, waiting, rfl⟩ := answered
      constructor <;> simp_all [marks, mark?, Mark.took?, Mark.saved?, Mark.delivered?]
    | none =>
      obtain ⟨ended, rfl⟩ := answered
      constructor <;> simp_all [marks, mark?, Mark.took?, Mark.saved?, Mark.delivered?]
  | handling order r =>
    cases r with
    | chain r =>
      cases answered
      exact leaves_quiet rfl rfl rfl later (by simp)
    | shared r =>
      cases answered
      exact leaves_quiet rfl rfl rfl later (by simp)
    | store r =>
      rcases answered with ⟨rfl, rfl⟩ | ⟨stop, rfl, rfl⟩
      · rw [mark_stored]
        refine ⟨?_, ?_, ?_, later, id, by simp⟩ <;> cases event : ScrapeWorld.event? r <;>
          simp [ScrapeWorld.perform, event, Mark.took?, Mark.saved?, Mark.delivered?]
      · rw [mark_refused]
        exact leaves_quiet rfl rfl rfl later id
  | knownHeader height =>
    obtain ⟨rfl, rfl⟩ := answered
    exact leaves_quiet rfl rfl rfl later id
  | rememberHeader height header =>
    cases answered
    exact leaves_quiet rfl rfl rfl later id
  | deliver output =>
    cases answered
    constructor <;> simp_all [marks, mark?, Mark.took?, Mark.saved?, Mark.delivered?]

theorem along_leaves {w w' : ScrapeWorld} {past : List (Exchange ScrapeRequest.Answer)}
    (along : Along Answers w past w') : Leaves w (marks past) w' := by
  induction along with
  | nil w => exact leaves_quiet rfl rfl rfl id id
  | @cons r reply _ _ _ later answered _ ih =>
    have both := (answers_leaves answered).append ih
    rwa [← marks_append, List.singleton_append] at both

end Scraping

end StakeIndex
