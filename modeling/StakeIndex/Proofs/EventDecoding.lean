import StakeIndex.Contract.Standard
import StakeIndex.Event.Log
import StakeIndex.Proofs.Codec
import StakeIndex.Proofs.Registration

/-!
Which event a log is decoded by. The registry keeps one event for each selector: the first one in the order
of the bindings and of the names in each interface, whichever contract it belongs to. A log is decoded by
that event alone. So the log of a contract's event is decoded to this event's inputs where the first event
of the selector is read alike, and it is refused where that one has another number of topics.
-/
namespace StakeIndex

open Abi (EventSchema Param Value)

section Reading

theorem ofLogBy_eq_readBy {read : DecodedLog.Reader} {registry : Registry} {log : RawLog} {selector : Hash}
    {schema : EventSchema} (topic : log.topics.head? = some selector)
    (known : registry.event? selector = some schema) :
    DecodedLog.ofLogBy read registry log = DecodedLog.readBy read schema log := by
  obtain ⟨address, topics, data, height, txHash, place, removed⟩ := log
  cases topics with
  | nil => cases topic
  | cons first rest =>
    cases topic
    unfold DecodedLog.ofLogBy
    dsimp only
    rw [known]

/-- A log as one event reads it. -/
def DecodedLog.readAs (schema : EventSchema) (log : RawLog) : Except Failure DecodedLog :=
  readBy EventSchema.values? schema log

theorem ofLog_eq_readAs {registry : Registry} {log : RawLog} {selector : Hash} {schema : EventSchema}
    (topic : log.topics.head? = some selector) (known : registry.event? selector = some schema) :
    DecodedLog.ofLog registry log = DecodedLog.readAs schema log := ofLogBy_eq_readBy topic known

/-- The values of the inputs that stand in topics. -/
def topicValues (inputs : List Param) (values : List Value) : List Value :=
  ((inputs.zip values).filter (·.1.indexed)).map (·.2)

/-- The values of the inputs that stand in the data. -/
def bodyValues (inputs : List Param) (values : List Value) : List Value :=
  ((inputs.zip values).filter fun (p, _) => !p.indexed).map (·.2)

/-- The names under which the values of some inputs are kept, the first of which is at a place. -/
def namesFrom (place : Nat) (inputs : List Param) : List String :=
  (inputs.zipIdx place).map fun (input, place) => DecodedLog.inputName place input

/-- The names under which the values of an event's inputs are kept. -/
def Abi.EventSchema.inputNames (e : EventSchema) : List String := namesFrom 0 e.inputs

/-- Of values that are split between topics and data each comes back to its input. -/
theorem assign_values {inputs : List Param} {values : List Value}
    (same : inputs.length = values.length) (place : Nat) :
    DecodedLog.assign place inputs (topicValues inputs values) (bodyValues inputs values) =
      .ok ((namesFrom place inputs).zip values) := by
  induction inputs generalizing values place with
  | nil => rfl
  | cons input rest ih =>
    cases values with
    | nil => cases same
    | cons v values =>
      have ih := ih (Nat.succ.inj same) (place + 1)
      have names : namesFrom place (input :: rest) =
          DecodedLog.inputName place input :: namesFrom (place + 1) rest := rfl
      cases indexed : input.indexed with
      | true =>
        have topics : topicValues (input :: rest) (v :: values) = v :: topicValues rest values := by
          simp [topicValues, indexed]
        have body : bodyValues (input :: rest) (v :: values) = bodyValues rest values := by
          simp [bodyValues, indexed]
        rw [topics, body, DecodedLog.assign, names, ih]
        · rfl
        · exact indexed
      | false =>
        have topics : topicValues (input :: rest) (v :: values) = topicValues rest values := by
          simp [topicValues, indexed]
        have body : bodyValues (input :: rest) (v :: values) = v :: bodyValues rest values := by
          simp [bodyValues, indexed]
        rw [topics, body, DecodedLog.assign, names, ih]
        · rfl
        · exact indexed

end Reading

section Alike

/-- Two events whose logs look alike: with inputs of the same types in the same order, of which the same ones
stand in topics. -/
structure Abi.EventSchema.LaidOutLike (f e : EventSchema) : Prop where
  anonymous : f.anonymous = e.anonymous
  layout : (f.inputs.map fun p => (p.kind, p.indexed)) = e.inputs.map fun p => (p.kind, p.indexed)

/-- Two events of which a log is read alike: with the same names, too. -/
structure Abi.EventSchema.ReadsLike (f e : EventSchema) : Prop extends f.LaidOutLike e where
  name : f.name = e.name
  names : f.inputNames = e.inputNames

variable {f e : EventSchema} {values : List Value}

namespace Abi.EventSchema

theorem values?_layout (e : EventSchema) (topics : List Hash) (data : List UInt8) :
    e.values? topics data =
      let layout := e.inputs.map fun p => (p.kind, p.indexed)
      let indexed := (layout.filter (·.2)).map (·.1)
      let count := indexed.length + if e.anonymous then 0 else 1
      if Kind.areKnown (layout.map (·.1)) ∧ count ≤ topicLimit ∧ topics.length = count then do
        let body ← decode? ((layout.filter fun input => !input.2).map (·.1)) data
        return (indexed.zipWith topicValue (if e.anonymous then topics else topics.drop 1), body)
      else none := by
  simp only [values?, topicCount, indexedInputs, bodyInputs, List.filter_map, List.map_map, List.length_map,
    List.zipWith_map_left]
  rfl

theorem LaidOutLike.values? (alike : f.LaidOutLike e) (topics : List Hash) (data : List UInt8) :
    f.values? topics data = e.values? topics data := by
  rw [values?_layout, alike.layout, alike.anonymous, ← values?_layout]

theorem LaidOutLike.length_inputs (alike : f.LaidOutLike e) : f.inputs.length = e.inputs.length := by
  have lengths := congrArg List.length alike.layout
  rwa [List.length_map, List.length_map] at lengths

theorem length_inputNames (e : EventSchema) : e.inputNames.length = e.inputs.length := by
  rw [inputNames, namesFrom, List.length_map, List.length_zipIdx]

end Abi.EventSchema

theorem topicValues_layout (inputs : List Param) (values : List Value) :
    topicValues inputs values =
      (((inputs.map fun p => (p.kind, p.indexed)).zip values).filter (·.1.2)).map (·.2) := by
  rw [topicValues, List.zip_map_left, List.filter_map, List.map_map]
  rfl

theorem bodyValues_layout (inputs : List Param) (values : List Value) :
    bodyValues inputs values =
      (((inputs.map fun p => (p.kind, p.indexed)).zip values).filter (!·.1.2)).map (·.2) := by
  rw [bodyValues, List.zip_map_left, List.filter_map, List.map_map]
  rfl

/-- A log whose values are found is read as its event, and each value stands under the name of its input. -/
theorem readAs_values {log : RawLog} (same : e.inputs.length = values.length)
    (found : e.values? log.topics log.data = some (topicValues e.inputs values, bodyValues e.inputs values))
    (distinct : e.inputNames.Nodup) :
    ∃ params, DecodedLog.readAs e log = .ok ⟨e.name, params⟩ ∧
      ∀ name v, params.find? name = some v ↔ (name, v) ∈ e.inputNames.zip values := by
  have names : e.inputNames.length ≤ values.length := by rw [e.length_inputNames, same]
  refine ⟨.ofList (e.inputNames.zip values), ?_, fun name v => Table.find?_ofList ?_⟩
  · rw [DecodedLog.readAs, DecodedLog.readBy, found]
    simp only [assign_values same, Abi.EventSchema.inputNames]
  · rwa [List.map_fst_zip names]

end Alike

section Logs

variable {f e : EventSchema} {values : List Value} {address : Address} {height index : Nat}

/-- Decoding undoes encoding for an event and some values of its inputs. -/
def Abi.EventSchema.Undoes (e : EventSchema) (values : List Value) : Prop :=
  ∀ source height index log, Standard.log? e source values height index = some log →
    e.values? log.topics log.data = some (topicValues e.inputs values, bodyValues e.inputs values)

theorem zip_hasKind {inputs : List Param} {values : List Value}
    (typed : Value.haveKinds values (inputs.map (·.kind))) :
    inputs.length = values.length ∧ ∀ given ∈ inputs.zip values, given.2.hasKind given.1.kind := by
  induction inputs generalizing values with
  | nil =>
    cases values with
    | nil => exact ⟨rfl, fun _ member => (nomatch member)⟩
    | cons => cases typed
  | cons input rest ih =>
    cases values with
    | nil => cases typed
    | cons v values =>
      obtain ⟨first, others⟩ := Bool.and_eq_true_iff.1 typed
      obtain ⟨same, each⟩ := ih others
      exact ⟨congrArg _ same, List.forall_mem_cons.2 ⟨first, each⟩⟩

theorem topic?_eq_some {v : Value} {kind : Abi.Kind} (mine : v.hasKind kind) (word : kind.isSingleWord) :
    Standard.topic? v = some (.ofBytes v.part.bytes) := by
  cases v with
  | bool | uint | int | address | fixedBytes | function => rfl
  | bytes | string | array | fixedArray | tuple =>
    cases kind <;> simp [Value.hasKind, Abi.Kind.isSingleWord] at mine word

theorem mapM_eq_some {α β : Type} {f : α → Option β} {g : α → β} {items : List α}
    (all : ∀ a ∈ items, f a = some (g a)) : items.mapM f = some (items.map g) := by
  induction items with
  | nil => rfl
  | cons a rest ih =>
    obtain ⟨first, others⟩ := List.forall_mem_cons.1 all
    simp [first, ih others]

/-- The log of an event with some values, where those in topics take one word each. -/
theorem log?_eq_some (words : ∀ p ∈ e.indexedInputs, p.kind.isSingleWord)
    (typed : Value.haveKinds values (e.inputs.map (·.kind))) (address : Address) (height index : Nat) :
    Standard.log? e address values height index = some
      ⟨address, e.selector :: (topicValues e.inputs values).map fun v => .ofBytes v.part.bytes,
        Abi.encode (bodyValues e.inputs values), height, .ofWord (.ofNat (height * 1000 + index)), index,
        false⟩ := by
  have inTopics : ∀ given ∈ (e.inputs.zip values).filter (·.1.indexed),
      Standard.topic? given.2 = some (.ofBytes given.2.part.bytes) := by
    intro given member
    obtain ⟨among, indexed⟩ := List.mem_filter.1 member
    have input : given.1 ∈ e.indexedInputs := List.mem_filter.2 ⟨(List.of_mem_zip among).1, indexed⟩
    exact topic?_eq_some ((zip_hasKind typed).2 given among) (words _ input)
  unfold Standard.log?
  dsimp only
  rw [mapM_eq_some inTopics, topicValues, List.map_map]
  rfl

theorem length_topicValues {inputs : List Param} (same : inputs.length = values.length) :
    (topicValues inputs values).length = (inputs.filter (·.indexed)).length := by
  have firsts : ((inputs.zip values).map (·.1)).filter (·.indexed) = inputs.filter (·.indexed) := by
    rw [List.map_fst_zip same.le]
  rw [topicValues, List.length_map, ← firsts, List.filter_map, List.length_map]
  rfl

/-- Values of the inputs' types make a log, whose first topic is the selector. -/
theorem exists_log (named : e.anonymous = false) (words : ∀ p ∈ e.indexedInputs, p.kind.isSingleWord)
    (typed : Value.haveKinds values (e.inputs.map (·.kind))) (address : Address) (height index : Nat) :
    ∃ log, Standard.log? e address values height index = some log ∧
      log.topics.head? = some e.selector ∧ log.topics.length = e.topicCount := by
  refine ⟨_, log?_eq_some words typed address height index, rfl, ?_⟩
  rw [List.length_cons, List.length_map, length_topicValues (zip_hasKind typed).1,
    Abi.EventSchema.topicCount, named]
  rfl

end Logs

section Undoing

variable {inputs : List Param} {values : List Value}

theorem haveKinds_filter (keep : Param → Bool) (typed : Value.haveKinds values (inputs.map (·.kind))) :
    Value.haveKinds (((inputs.zip values).filter fun given => keep given.1).map (·.2))
      ((inputs.filter keep).map (·.kind)) := by
  induction inputs generalizing values with
  | nil => rfl
  | cons input rest ih =>
    cases values with
    | nil => cases typed
    | cons v values =>
      obtain ⟨first, others⟩ := Bool.and_eq_true_iff.1 typed
      rw [List.zip_cons_cons, List.filter_cons, List.filter_cons]
      split
      · exact Bool.and_eq_true_iff.2 ⟨first, ih others⟩
      · exact ih others

theorem mem_of_mem_filter_zip (keep : Param → Bool) {v : Value}
    (member : v ∈ ((inputs.zip values).filter fun given => keep given.1).map (·.2)) : v ∈ values := by
  obtain ⟨given, kept, rfl⟩ := List.mem_map.1 member
  exact (List.of_mem_zip (List.mem_filter.1 kept).1).2

/-- The values in topics come back from their words. -/
theorem zipWith_topicValue (typed : Value.haveKinds values (inputs.map (·.kind)))
    (words : ∀ p ∈ inputs, p.kind.isSingleWord) (proper : ∀ p ∈ inputs, p.kind.isProper)
    (fit : ∀ v ∈ values, v.fits) :
    inputs.zipWith (fun p topic => EventSchema.topicValue p.kind topic)
      (values.map fun v => .ofBytes v.part.bytes) = values := by
  induction inputs generalizing values with
  | nil =>
    cases values with
    | nil => rfl
    | cons => cases typed
  | cons input rest ih =>
    cases values with
    | nil => cases typed
    | cons v values =>
      obtain ⟨first, others⟩ := Bool.and_eq_true_iff.1 typed
      obtain ⟨word, words⟩ := List.forall_mem_cons.1 words
      obtain ⟨sound, proper⟩ := List.forall_mem_cons.1 proper
      obtain ⟨fits, fit⟩ := List.forall_mem_cons.1 fit
      have bytes : (Hash.ofBytes v.part.bytes).toBytes = v.part.bytes :=
        Word.toBytes_ofBytes (Abi.part_word first word sound fits).2
      have here : EventSchema.topicValue input.kind (.ofBytes v.part.bytes) = v := by
        rw [EventSchema.topicValue, if_pos word, bytes, Abi.ofWord_part first word fits]
      rw [List.map_cons, List.zipWith_cons_cons, here, ih others words proper fit]

/-- Decoding undoes encoding for proper types and values that fit. -/
theorem undoes_of_fits {e : EventSchema} (named : e.anonymous = false)
    (words : ∀ p ∈ e.indexedInputs, p.kind.isSingleWord)
    (typed : Value.haveKinds values (e.inputs.map (·.kind))) (fit : Value.allFit values)
    (proper : Abi.Kind.areProper (e.inputs.map (·.kind)))
    (shallow : Abi.Kind.depthOf (e.inputs.map (·.kind)) ≤ Abi.depthLimit)
    (few : e.topicCount ≤ EventSchema.topicLimit)
    (small : (Abi.encode (bodyValues e.inputs values)).length < registerSize) : e.Undoes values := by
  intro source height index log built
  rw [log?_eq_some words typed] at built
  cases built
  have fits := Abi.allFit_iff.1 fit
  have sound : ∀ p ∈ e.inputs, p.kind.isProper := fun p member =>
    Abi.areProper_iff.1 proper _ (List.mem_map_of_mem member)
  have topics : e.indexedInputs.zipWith (fun p topic => EventSchema.topicValue p.kind topic)
      ((topicValues e.inputs values).map fun v => .ofBytes v.part.bytes) = topicValues e.inputs values :=
    zipWith_topicValue (haveKinds_filter (·.indexed) typed) words
      (fun p member => sound p (List.mem_filter.1 member).1)
      (fun v member => fits v (mem_of_mem_filter_zip (·.indexed) member))
  have kinds (kind : Abi.Kind) (member : kind ∈ e.bodyInputs.map (·.kind)) :
      kind ∈ e.inputs.map (·.kind) := by
    obtain ⟨p, kept, rfl⟩ := List.mem_map.1 member
    exact List.mem_map_of_mem (List.mem_filter.1 kept).1
  have body : Abi.decode? (e.bodyInputs.map (·.kind)) (Abi.encode (bodyValues e.inputs values)) =
      some (bodyValues e.inputs values) :=
    Abi.decode?_encode (haveKinds_filter (fun p => !p.indexed) typed)
      (Abi.allFit_iff.2 fun v member => fits v (mem_of_mem_filter_zip (fun p => !p.indexed) member))
      (Abi.areProper_iff.2 fun kind member => Abi.areProper_iff.1 proper kind (kinds kind member))
      (Abi.depthOf_le_iff.2 fun kind member => Abi.depthOf_le_iff.1 shallow kind (kinds kind member)) small
  have count := length_topicValues (zip_hasKind typed).1
  have expected : (e.selector :: (topicValues e.inputs values).map fun v =>
      Hash.ofBytes v.part.bytes).length = e.topicCount := by
    rw [List.length_cons, List.length_map, count, EventSchema.topicCount, named]
    rfl
  simp only [EventSchema.values?]
  rw [if_pos ⟨Abi.areKnown_of_areProper _ proper, few, expected⟩, body, named]
  simp only [Option.bind_eq_bind, Option.bind_some, Bool.false_eq_true, if_false, List.drop_succ_cons,
    List.drop_zero, topics]
  rfl

end Undoing

section First

variable {e : EventSchema} {values : List Value} {address : Address}

/-- Logs of a selector are decoded by the first event that was registered with it, whichever contract they
come from. The log of an event of a registered contract is decoded to the first event's name and inputs,
each with its own value, where both events are laid out alike, and so to its own event where both have the
same names, too; it is refused where the first event has another number of topics. -/
theorem decoded_by_first {bindings : List Binding} {binding : Binding}
    (registered : (Registry.ofBindings bindings).atAddress? address = some binding)
    (mine : e ∈ binding.interface.events) (named : e.anonymous = false)
    (words : ∀ p ∈ e.indexedInputs, p.kind.isSingleWord) (distinct : e.inputNames.Nodup)
    (typed : Value.haveKinds values (e.inputs.map (·.kind))) (undoes : e.Undoes values)
    (height index : Nat) :
    ∃ first log,
      (bindings.flatMap (·.interface.events)).find? (·.selector = e.selector) = some first ∧
      Standard.log? e address values height index = some log ∧
      DecodedLog.ofLog (.ofBindings bindings) log = DecodedLog.readAs first log ∧
      (first.LaidOutLike e → first.inputNames.Nodup → ∃ params,
        DecodedLog.ofLog (.ofBindings bindings) log = .ok ⟨first.name, params⟩ ∧
        ∀ name v, params.find? name = some v ↔ (name, v) ∈ first.inputNames.zip values) ∧
      (first.ReadsLike e → ∃ params,
        DecodedLog.ofLog (.ofBindings bindings) log = .ok ⟨e.name, params⟩ ∧
        ∀ name v, params.find? name = some v ↔ (name, v) ∈ e.inputNames.zip values) ∧
      (first.topicCount ≠ e.topicCount → ∃ message,
        DecodedLog.ofLog (.ofBindings bindings) log = .error (.decode message)) := by
  obtain ⟨log, built, topic, count⟩ := exists_log named words typed address height index
  have same := (zip_hasKind typed).1
  have among : e ∈ bindings.flatMap (·.interface.events) :=
    List.mem_flatMap.2 ⟨binding, mem_of_atAddress? registered, mine⟩
  obtain ⟨first, found⟩ : ∃ first,
      (bindings.flatMap (·.interface.events)).find? (·.selector = e.selector) = some first :=
    Option.isSome_iff_exists.1 (List.find?_isSome.2 ⟨e, among, decide_eq_true rfl⟩)
  have read : DecodedLog.ofLog (.ofBindings bindings) log = DecodedLog.readAs first log :=
    ofLog_eq_readAs topic ((event?_ofBindings bindings e.selector).trans found)
  -- The registry has chosen the event; what follows is about this event and the log alone.
  have like (alike : first.LaidOutLike e) (distinct : first.inputNames.Nodup) : ∃ params,
      DecodedLog.ofLog (.ofBindings bindings) log = .ok ⟨first.name, params⟩ ∧
        ∀ name v, params.find? name = some v ↔ (name, v) ∈ first.inputNames.zip values := by
    -- Finding the values takes the types and places of the inputs only, so what undoes the log's own event
    -- undoes the first one as well.
    have fits : first.values? log.topics log.data =
        some (topicValues first.inputs values, bodyValues first.inputs values) := by
      rw [alike.values?, undoes _ _ _ _ built, topicValues_layout first.inputs,
        bodyValues_layout first.inputs, alike.layout, ← topicValues_layout, ← bodyValues_layout]
    rw [read]
    exact readAs_values (alike.length_inputs.trans same) fits distinct
  refine ⟨first, log, found, built, read, like, fun alike => ?_, fun other => ?_⟩
  · rw [← alike.name, ← alike.names]
    exact like alike.toLaidOutLike (alike.names ▸ distinct)
  · have misfit : first.values? log.topics log.data = none := by
      rw [Abi.EventSchema.values?]
      exact if_neg fun fits => other (fits.2.2.symm.trans count)
    exact ⟨first.name ++ ": the log does not fit the event", by rw [read, DecodedLog.readAs, DecodedLog.readBy, misfit]⟩

/-- The event of a punishment, where the validator may stand in a topic. -/
def slashEvent (indexed : Bool) : EventSchema :=
  ⟨"Slash", [⟨"validatorId", .uint 256, indexed⟩, ⟨"amount", .uint 256, false⟩], false⟩

/-- A contract that has this event only. -/
def slashBinding (version : String) (address : Word) (indexed : Bool) : Binding :=
  ⟨.punisher, ⟨version⟩, .ofWord address, ⟨[.event (slashEvent indexed)]⟩⟩

theorem events_slashBinding (version : String) (address : Word) (indexed : Bool) :
    (slashBinding version address indexed).interface.events = [slashEvent indexed] :=
  List.mergeSort_singleton _

/-- The contract of two versions: in the second one the validator stands in a topic. -/
def slashBindings : List Binding := [slashBinding "1.0.0" 1 false, slashBinding "2.0.0" 2 true]

/-- Both versions have the event under one selector, so the first one's counts. -/
theorem first_slash (indexed : Bool) :
    (slashBindings.flatMap (·.interface.events)).find? (·.selector = (slashEvent indexed).selector) =
      some (slashEvent false) := by
  have same : (slashEvent false).selector = (slashEvent indexed).selector := rfl
  rw [slashBindings, List.flatMap_cons, events_slashBinding, List.singleton_append, List.find?_cons_of_pos]
  exact decide_eq_true same

theorem slashEvent_words (indexed : Bool) :
    ∀ p ∈ (slashEvent indexed).indexedInputs, p.kind.isSingleWord := by
  cases indexed <;> decide

theorem slashEvent_undoes (indexed : Bool) : (slashEvent indexed).Undoes [.uint 1 256, .uint 100 256] := by
  refine undoes_of_fits rfl (slashEvent_words indexed) rfl rfl rfl (Nat.zero_le _) ?_ ?_
  all_goals cases indexed <;> decide

/-- The log of the first version is decoded by its own event. -/
theorem decoded_by_first_slash :
    ∃ log params,
      Standard.log? (slashEvent false) (.ofWord 1) [.uint 1 256, .uint 100 256] 10 0 = some log ∧
      DecodedLog.ofLog (.ofBindings slashBindings) log = .ok ⟨"Slash", params⟩ ∧
      params.find? "validatorId" = some (.uint 1 256) ∧ params.find? "amount" = some (.uint 100 256) := by
  have registered : (Registry.ofBindings slashBindings).atAddress? (.ofWord 1) =
      some (slashBinding "1.0.0" 1 false) := rfl
  have own : slashEvent false ∈ (slashBinding "1.0.0" 1 false).interface.events := by
    rw [events_slashBinding]
    exact List.mem_cons_self
  obtain ⟨first, log, found, built, _, _, alike, _⟩ := decoded_by_first registered own rfl
    (slashEvent_words false) (by decide) rfl (slashEvent_undoes false) 10 0
  cases (first_slash false).symm.trans found
  obtain ⟨params, decoded, named⟩ := alike ⟨⟨rfl, rfl⟩, rfl, rfl⟩
  exact ⟨log, params, built, decoded, (named _ _).2 List.mem_cons_self,
    (named _ _).2 (List.mem_cons_of_mem _ List.mem_cons_self)⟩

/-- The second version's event is the only one of its contract, and its log is refused. -/
theorem not_decoded_by_own :
    ∃ binding log, (Registry.ofBindings slashBindings).atAddress? (.ofWord 2) = some binding ∧
      binding.interface.events = [slashEvent true] ∧ (slashEvent true).anonymous = false ∧
      (∀ p ∈ (slashEvent true).indexedInputs, p.kind.isSingleWord) ∧
      (slashEvent true).inputNames.Nodup ∧
      Value.haveKinds [.uint 1 256, .uint 100 256] ((slashEvent true).inputs.map (·.kind)) ∧
      (slashEvent true).Undoes [.uint 1 256, .uint 100 256] ∧
      Standard.log? (slashEvent true) (.ofWord 2) [.uint 1 256, .uint 100 256] 10 0 = some log ∧
      DecodedLog.ofLog (.ofBindings slashBindings) log =
        .error (.decode "Slash: the log does not fit the event") := by
  have typed : Value.haveKinds [.uint 1 256, .uint 100 256] ((slashEvent true).inputs.map (·.kind)) := rfl
  obtain ⟨log, built, topic, count⟩ := exists_log rfl (slashEvent_words true) typed (.ofWord 2) 10 0
  have misfit : (slashEvent false).values? log.topics log.data = none := by
    refine if_neg fun fits => ?_
    have one : log.topics.length = 1 := fits.2.2
    cases one.symm.trans count
  refine ⟨slashBinding "2.0.0" 2 true, log, rfl, events_slashBinding .., rfl, slashEvent_words true,
    by decide, typed, slashEvent_undoes true, built, ?_⟩
  rw [ofLog_eq_readAs topic ((event?_ofBindings slashBindings _).trans (first_slash true)),
    DecodedLog.readAs, DecodedLog.readBy, misfit]
  rfl

end First
end StakeIndex
