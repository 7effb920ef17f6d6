/-!
Programs as dialogues: a program either is done or asks for something and goes on with the answer. What
it asks of the world stands in the program itself, so a run can be cut, failed or interleaved with
others at every request.
-/
namespace StakeIndex

/-- A program that makes requests; the type of an answer depends on the request. -/
inductive Dialogue (Request : Type) (Answer : Request → Type) (α : Type) where
  | done (result : α)
  | ask (request : Request) (next : Answer request → Dialogue Request Answer α)

namespace Dialogue

variable {Request : Type} {Answer : Request → Type} {α β : Type}

/-- One program, and then another one that depends on the first one's result. -/
def andThen : Dialogue Request Answer α → (α → Dialogue Request Answer β) →
    Dialogue Request Answer β
  | done a, f => f a
  | ask r next, f => ask r fun answer => (next answer).andThen f

instance : Monad (Dialogue Request Answer) where
  pure := done
  bind := andThen

def request (r : Request) : Dialogue Request Answer (Answer r) := ask r done

@[simp] theorem done_bind (a : α) (f : α → Dialogue Request Answer β) : done a >>= f = f a := rfl

@[simp] theorem ask_bind (r : Request) (next : Answer r → Dialogue Request Answer α)
    (f : α → Dialogue Request Answer β) :
    ask r next >>= f = ask r fun answer => next answer >>= f := rfl

theorem bind_done (d : Dialogue Request Answer α) : d >>= done = d := by
  induction d with
  | done a => rfl
  | ask r next ih => exact congrArg (ask r) (funext ih)

theorem bind_bind {γ : Type} (d : Dialogue Request Answer α) (f : α → Dialogue Request Answer β)
    (g : β → Dialogue Request Answer γ) : d >>= f >>= g = d >>= fun a => f a >>= g := by
  induction d with
  | done a => rfl
  | ask r next ih => exact congrArg (ask r) (funext ih)

instance : LawfulMonad (Dialogue Request Answer) :=
  LawfulMonad.mk' _ bind_done (fun _ _ => rfl) bind_bind

/-- The same program with each of its requests made in another way. -/
def mapRequests {Request' : Type} {Answer' : Request' → Type}
    (f : (r : Request) → Dialogue Request' Answer' (Answer r)) :
    Dialogue Request Answer α → Dialogue Request' Answer' α
  | done a => done a
  | ask r next => (f r).andThen fun answer => (next answer).mapRequests f

theorem mapRequests_bind {Request' : Type} {Answer' : Request' → Type}
    (g : (r : Request) → Dialogue Request' Answer' (Answer r)) (d : Dialogue Request Answer α)
    (f : α → Dialogue Request Answer β) :
    (d >>= f).mapRequests g = d.mapRequests g >>= fun a => (f a).mapRequests g := by
  induction d with
  | done a => rfl
  | ask r next ih =>
    refine Eq.trans ?_ (bind_bind (g r) _ _).symm
    exact congrArg (g r >>= ·) (funext ih)

/-- Runs a program against a world that answers every request and changes with it. -/
def run {σ : Type} (answer : (r : Request) → σ → Answer r × σ) :
    Dialogue Request Answer α → σ → α × σ
  | done a, world => (a, world)
  | ask r next, world =>
    let (reply, world) := answer r world
    (next reply).run answer world

theorem run_bind {σ : Type} (answer : (r : Request) → σ → Answer r × σ)
    (d : Dialogue Request Answer α) (f : α → Dialogue Request Answer β) (world : σ) :
    (d >>= f).run answer world = (f (d.run answer world).1).run answer (d.run answer world).2 := by
  induction d generalizing world with
  | done a => rfl
  | ask r next ih => exact ih _ _

end Dialogue
end StakeIndex
