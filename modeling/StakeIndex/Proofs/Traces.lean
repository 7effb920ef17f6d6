import StakeIndex.Proofs.Pools

/-!
Runs of which all exchanges are written down, and programs whose requests are made in another way. What a program
promises under a protocol it keeps in every world that replies so.
-/
namespace StakeIndex.Dialogue

variable {Request : Type} {Answer : Request → Type} {α σ : Type}

/-- A world that answers, and writes down what was exchanged. -/
def noting (answer : (r : Request) → σ → Answer r × σ) (r : Request) (w : σ × List (Exchange Answer)) :
    Answer r × σ × List (Exchange Answer) :=
  let (reply, s) := answer r w.1
  (reply, s, w.2 ++ [⟨r, reply⟩])

variable {answer : (r : Request) → σ → Answer r × σ}

theorem run_noting (d : Dialogue Request Answer α) (w : σ × List (Exchange Answer)) :
    (d.run (noting answer) w).1 = (d.run answer w.1).1 := by
  induction d generalizing w with
  | done a => rfl
  | ask r next ih => exact ih _ _

/-- What a program has exchanged and returned is as promised. -/
theorem Obeys.noted {p : Protocol Answer} {promise : Promise Answer α} {d : Dialogue Request Answer α}
    (obeys : d.Obeys p promise) (replies : ∀ r s, p.asks r → p.replies r (answer r s).1) (s : σ)
    (past : List (Exchange Answer)) :
    ∃ later, d.run (noting answer) (s, past) = ((d.run answer s).1, (d.run answer s).2, past ++ later) ∧
      promise later (d.run answer s).1 ∧ ∀ e ∈ later, p.Keeps e := by
  induction d generalizing s past promise with
  | done a =>
    have same := congrArg (fun all => (a, s, all)) (List.append_nil past).symm
    exact ⟨[], same, obeys, fun _ among => (nomatch among)⟩
  | ask r next ih =>
    obtain ⟨may, rest⟩ := obeys
    have kept := replies r s may
    obtain ⟨later, ran, promised, keeps⟩ :=
      ih (answer r s).1 (rest _ kept) (answer r s).2 (past ++ [⟨r, (answer r s).1⟩])
    refine ⟨⟨r, (answer r s).1⟩ :: later, ran.trans ?_, promised,
      List.forall_mem_cons.2 ⟨⟨may, kept⟩, keeps⟩⟩
    rw [List.append_assoc]
    rfl

section Requests

variable {Request' : Type} {Answer' : Request' → Type} {f : (r : Request) → Dialogue Request' Answer' (Answer r)}
  {d : Dialogue Request Answer α}

/-- To make each request of a program in another way is to run the program in the world that answers so. -/
theorem run_mapRequests (answer : (r : Request') → σ → Answer' r × σ) (s : σ) :
    (d.mapRequests f).run answer s = d.run (fun r s => (f r).run answer s) s := by
  induction d generalizing s with
  | done a => rfl
  | ask r next ih => exact (run_bind answer (f r) _ s).trans (ih _ _)

/-- A program that keeps to a protocol keeps to another one when its requests are made in the way of that. -/
theorem Obeys.mapRequests {p : Protocol Answer} {q : Protocol Answer'}
    (each : ∀ r, p.asks r → (f r).Obeys q fun _ reply => p.replies r reply) {holds : α → Prop}
    (obeys : d.Obeys p fun _ a => holds a) :
    (d.mapRequests f).Obeys q fun _ a => holds a := by
  induction d with
  | done a => exact obeys
  | ask r next ih =>
    obtain ⟨may, rest⟩ := obeys
    exact (each r may).bind fun _ reply kept => ih reply (rest reply kept)

end Requests

end StakeIndex.Dialogue
