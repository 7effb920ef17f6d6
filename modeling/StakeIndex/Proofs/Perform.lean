import StakeIndex.Proofs.Table
import StakeIndex.Store.Tables

/-!
Requests performed one after another, and which table each of them touches: a counter is set in the table
of validators alone, and a figure goes to its series and then to that counter.
-/
namespace StakeIndex.Tables

/-- The tables after some requests. -/
def performAll (t : Tables) (requests : List StoreRequest) : Tables :=
  requests.foldl (fun t r => (t.perform r).2) t

@[simp] theorem performAll_nil (t : Tables) : t.performAll [] = t := rfl

@[simp] theorem performAll_cons (t : Tables) (r : StoreRequest) (rest : List StoreRequest) :
    t.performAll (r :: rest) = (t.perform r).2.performAll rest := rfl

@[simp] theorem performAll_append (t : Tables) (first second : List StoreRequest) :
    t.performAll (first ++ second) = (t.performAll first).performAll second :=
  List.foldl_append

/-- What every request keeps holds after all of them. -/
theorem performAll_invariant (holds : Tables → Prop) {t : Tables} {requests : List StoreRequest}
    (start : holds t) (keeps : ∀ r ∈ requests, ∀ t, holds t → holds (t.perform r).2) :
    holds (t.performAll requests) := by
  induction requests generalizing t with
  | nil => exact start
  | cons r rest ih =>
    obtain ⟨first, others⟩ := List.forall_mem_cons.1 keeps
    exact ih (first t start) others

/-- The validators with a counter set on the latest snapshot of one of them. -/
def withCounter (validators : Table (Word × Nat) Validator) (id : Word) (figure : ValidatorFigure)
    (amount : Word) : Table (Word × Nat) Validator :=
  match validators.last? fun key => key.1 == id with
  | some (key, v) => validators.insert key (v.setCounter figure amount)
  | none => validators

theorem setCounter_eq (t : Tables) (id : Word) (figure : ValidatorFigure) (amount : Word) :
    t.setCounter id figure amount =
      { t with validators := withCounter t.validators id figure amount } := by
  unfold setCounter withCounter
  cases t.validators.last? fun key => key.1 == id with
  | none => rfl
  | some e => rfl

theorem showLatest_eq (t : Tables) (id : Word) (figure : ValidatorFigure) :
    t.showLatest id figure =
      { t with validators := withCounter t.validators id figure (t.latestAmount id figure) } :=
  setCounter_eq ..

theorem latestAmount_congr {s t : Tables} (h : s.validatorStatistics = t.validatorStatistics) :
    s.latestAmount = t.latestAmount := by
  funext id figure
  simp only [latestAmount, lastStatistic?, h]

theorem writeFigure_eq (t : Tables) (at_ : Calculation) (figure : ValidatorFigure) (amount : Word) :
    t.writeFigure at_ figure amount =
      let rows := t.saveValidatorStatistic ⟨at_.validatorId, at_.height, at_.time, figure, amount⟩
      { rows with
        validators := withCounter t.validators at_.validatorId figure
          (rows.latestAmount at_.validatorId figure) } :=
  showLatest_eq ..

end StakeIndex.Tables
