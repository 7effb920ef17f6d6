import StakeIndex.Proofs.EventDecoding

/-!
The values of an event's inputs. The values of a log come in two rows, those of the topics and those of the data, each
in the order of the inputs; every input gets the next one of its row, so no value is missing and none is left over.
-/
namespace StakeIndex

open Abi (EventSchema Param Value Kind)

section Counts

theorem length_emptyValues (kinds : List Kind) : (Kind.emptyValues kinds).length = kinds.length := by
  induction kinds with
  | nil => rfl
  | cons kind rest ih => rw [Kind.emptyValues, List.length_cons, ih, List.length_cons]

theorem length_readAll {kinds : List Kind} {c after : Abi.Cursor} {values : List Value}
    (found : Kind.readAll kinds c = some (values, after)) : values.length = kinds.length := by
  induction kinds generalizing c values with
  | nil =>
    cases found
    rfl
  | cons kind rest ih =>
    simp only [Kind.readAll, Option.bind_eq_bind, Option.bind_eq_some_iff, Option.pure_def, Option.some.injEq] at found
    obtain ⟨⟨v, c'⟩, -, ⟨others, c''⟩, read, same⟩ := found
    cases same
    rw [List.length_cons, ih read, List.length_cons]

/-- A body holds one value for each type. -/
theorem length_decode? {kinds : List Kind} {bs : List UInt8} {values : List Value}
    (found : Abi.decode? kinds bs = some values) : values.length = kinds.length := by
  unfold Abi.decode? at found
  dsimp only at found
  split at found
  · cases found
    exact length_emptyValues kinds
  split at found
  · cases found
  · obtain ⟨⟨_, after⟩, read, rfl⟩ := Option.map_eq_some_iff.1 found
    exact length_readAll read

/-- A way to read logs that finds one value for each input that stands in a topic, and one for each other
input. -/
def DecodedLog.Reader.Counts (read : DecodedLog.Reader) : Prop :=
  ∀ e topics data indexed body, read e topics data = some (indexed, body) →
    indexed.length = e.indexedInputs.length ∧ body.length = e.bodyInputs.length

theorem counts_values? : DecodedLog.Reader.Counts EventSchema.values? := by
  intro e topics data indexed body found
  simp only [EventSchema.values?, Option.ite_none_right_eq_some] at found
  obtain ⟨⟨-, -, count⟩, found⟩ := found
  obtain ⟨others, read, same⟩ := Option.bind_eq_some_iff.1 found
  cases same
  have left : (if e.anonymous then topics else topics.drop 1).length = e.indexedInputs.length := by
    rw [EventSchema.topicCount] at count
    split at count
    next anonymous => rw [if_pos anonymous, count, Nat.add_zero]
    next named => rw [if_neg named, List.length_drop, count, Nat.add_sub_cancel]
  have data := length_decode? read
  rw [List.length_map] at data
  exact ⟨by rw [List.length_zipWith, left, Nat.min_self], data⟩

end Counts

section Merging

/-- The value of the input at a place: the value of the topics behind those of the indexed inputs before it, or the
value of the data behind those of the other inputs before it. -/
def valueAt? (inputs : List Param) (topics body : List Value) (place : Nat) : Option Value :=
  inputs[place]?.bind fun input =>
    if input.indexed then topics[(inputs.take place).countP (·.indexed)]?
    else body[(inputs.take place).countP (!·.indexed)]?

variable {inputs : List Param} {topics body : List Value}

/-- Values in two rows, as many as there are inputs of each sort, are the values of the inputs in one row. -/
theorem exists_values (indexed : topics.length = inputs.countP (·.indexed))
    (others : body.length = inputs.countP (!·.indexed)) :
    ∃ values, values.length = inputs.length ∧ topicValues inputs values = topics ∧ bodyValues inputs values = body ∧
      ∀ place, values[place]? = valueAt? inputs topics body place := by
  induction inputs generalizing topics body with
  | nil =>
    cases List.eq_nil_of_length_eq_zero indexed
    cases List.eq_nil_of_length_eq_zero others
    exact ⟨[], rfl, rfl, rfl, fun _ => rfl⟩
  | cons input rest ih =>
    cases sort : input.indexed with
    | true =>
      rw [List.countP_cons_of_pos sort] at indexed
      rw [List.countP_cons_of_neg (by simp [sort])] at others
      obtain ⟨v, topics, rfl⟩ := List.exists_cons_of_length_eq_add_one indexed
      obtain ⟨values, count, first, second, at_⟩ := ih (Nat.succ.inj indexed) others
      refine ⟨v :: values, congrArg _ count, ?_, ?_, fun place => ?_⟩
      · rw [← first]
        simp [topicValues, sort]
      · rw [← second]
        simp [bodyValues, sort]
      · cases place with
        | zero => simp [valueAt?, sort]
        | succ place => simp [valueAt?, sort, at_]
    | false =>
      rw [List.countP_cons_of_neg (by simp [sort])] at indexed
      rw [List.countP_cons_of_pos (by simp [sort])] at others
      obtain ⟨v, body, rfl⟩ := List.exists_cons_of_length_eq_add_one others
      obtain ⟨values, count, first, second, at_⟩ := ih indexed (Nat.succ.inj others)
      refine ⟨v :: values, congrArg _ count, ?_, ?_, fun place => ?_⟩
      · rw [← first]
        simp [topicValues, sort]
      · rw [← second]
        simp [bodyValues, sort]
      · cases place with
        | zero => simp [valueAt?, sort]
        | succ place => simp [valueAt?, sort, at_]

end Merging

/-- Whichever way logs are read, if that finds one value for each input: a log whose values are found is decoded, and
no input goes without a value. There are as many values in the topics as there are indexed inputs and as many in the data
as there are others; each input has the next one of its sort, and it is kept under the input's name, the later one of two
with the same name. With different names the fields are exactly the inputs with their values, and so are the members of
their JSON form. -/
theorem inputs_get_values {read : DecodedLog.Reader} (counts : read.Counts) {registry : Registry} {log : RawLog}
    {selector : Hash} {e : EventSchema} {topics body : List Value} (topic : log.topics.head? = some selector)
    (known : registry.event? selector = some e) (found : read e log.topics log.data = some (topics, body)) :
    topics.length = e.indexedInputs.length ∧ body.length = e.bodyInputs.length ∧
    ∃ values params, DecodedLog.ofLogBy read registry log = .ok ⟨e.name, params⟩ ∧ values.length = e.inputs.length ∧
      (∀ place, values[place]? = valueAt? e.inputs topics body place) ∧
      params = .ofList (e.inputNames.zip values) ∧
      (e.inputNames.Nodup → params.entries.Perm (e.inputNames.zip values) ∧
        ∃ members, params.json = .object members ∧ (members.map (·.1)).Perm e.inputNames) := by
  obtain ⟨indexed, others⟩ := counts e log.topics log.data topics body found
  obtain ⟨values, count, inTopics, inBody, at_⟩ := exists_values
    (indexed.trans List.countP_eq_length_filter.symm) (others.trans List.countP_eq_length_filter.symm)
  have decoded : DecodedLog.readBy read e log = .ok ⟨e.name, .ofList (e.inputNames.zip values)⟩ := by
    rw [DecodedLog.readBy, found, ← inTopics, ← inBody]
    simp only [assign_values count.symm, EventSchema.inputNames]
  refine ⟨indexed, others, values, _, (ofLogBy_eq_readBy topic known).trans decoded, count, at_, rfl,
    fun distinct => ?_⟩
  have names : (e.inputNames.zip values).map (·.1) = e.inputNames :=
    List.map_fst_zip (by rw [e.length_inputNames, count])
  have fields : (Table.ofList (e.inputNames.zip values)).entries.Perm (e.inputNames.zip values) :=
    Table.entries_ofList_perm (names.symm ▸ distinct)
  have keys := fields.map (·.1)
  rw [names] at keys
  refine ⟨fields, _, rfl, ?_⟩
  rw [List.map_map]
  exact keys

section Mixed

/-- An event whose inputs stand in topics and in the data by turns, some of them without a name. -/
def movedEvent : EventSchema :=
  ⟨"Moved", [⟨"", .uint 256, false⟩, ⟨"holder", .address, true⟩, ⟨"", .bool, true⟩, ⟨"amount", .uint 256, false⟩],
    false⟩

/-- Values of its inputs. -/
def movedValues : List Value := [.uint 7 256, .address (.ofWord 5), .bool true, .uint 100 256]

/-- A contract that has this event only. -/
def movedBinding : Binding := ⟨.token, ⟨"1.0.0"⟩, .ofWord 3, ⟨[.event movedEvent]⟩⟩

theorem movedEvent_known : (Registry.ofBindings [movedBinding]).event? movedEvent.selector = some movedEvent := by
  have events : movedBinding.interface.events = [movedEvent] := List.mergeSort_singleton _
  rw [event?_ofBindings, List.flatMap_singleton, events, List.find?_cons_of_pos]
  exact decide_eq_true rfl

theorem movedEvent_undoes : movedEvent.Undoes movedValues :=
  undoes_of_fits rfl (by decide) rfl rfl rfl (Nat.zero_le _) (by decide) (by decide)

/-- Its logs are read as the interface describes it, and each of its inputs gets its own value. -/
theorem inputs_get_values_by_turns :
    ∃ log params, Standard.log? movedEvent (.ofWord 3) movedValues 10 0 = some log ∧
      DecodedLog.ofLog (.ofBindings [movedBinding]) log = .ok ⟨"Moved", params⟩ ∧
      params.entries.Perm [("param0", .uint 7 256), ("holder", .address (.ofWord 5)), ("param2", .bool true),
        ("amount", .uint 100 256)] := by
  have words : ∀ p ∈ movedEvent.indexedInputs, p.kind.isSingleWord := by decide
  have typed : Value.haveKinds movedValues (movedEvent.inputs.map (·.kind)) := rfl
  obtain ⟨log, built, topic, -⟩ := exists_log rfl words typed (.ofWord 3) 10 0
  have found := movedEvent_undoes _ _ _ _ built
  obtain ⟨-, -, values, params, decoded, -, at_, -, kept⟩ := inputs_get_values counts_values? topic movedEvent_known found
  have same : values = movedValues := by
    refine List.ext_getElem? fun place => ?_
    rw [at_]
    match place with
    | 0 | 1 | 2 | 3 => rfl
    | _ + 4 => rfl
  obtain ⟨fields, -⟩ := kept (by decide)
  rw [same] at fields
  exact ⟨log, params, built, decoded, fields⟩

end Mixed
end StakeIndex
