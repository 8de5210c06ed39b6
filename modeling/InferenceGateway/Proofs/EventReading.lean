import InferenceGateway.Anthropic.Event
import InferenceGateway.Proofs.FieldReading

/-!
# Payloads that tell events

Which event of the vendor a payload tells. A payload is an object that names the type of its event
among its members, or an array that begins with it; what belongs to the event stands in one member
more, or is the only other item. Members that are not known make no difference, wherever they stand.

* `Tags.split_eq_ok_iff`, `Fields.closed_single_iff`: what a tagged value and a record with one
  field are read of.
* `Event.Told`: the nodes that tell an event. They are read as what they tell, and nothing else is
  read (`Event.read_eq_ok_iff`).
* `Event.decodeFragment_eq_ok_iff`: so it is with payloads.
-/

namespace InferenceGateway

open Document

/-! ## Tagged values and records with one field -/

namespace Document

variable {α τ : Type} {d : Dialect} {name label : String} {n tag rest value : Node}

/-- The tag of a value, and what is beside it: the tag is the only member of its name in an object,
    or the first item of an array. -/
inductive HasTag (name : String) : (n tag rest : Node) → Prop
  | member {members : List (String × Node)} {tag : Node} : HasOnce members name tag →
    HasTag name (.object members) tag (.object (members.filter (·.1 ≠ name)))
  | first {tag : Node} {items : List Node} :
    HasTag name (.sequence (tag :: items)) tag (.sequence items)

/-- The value of the only field of a record: it is the only member of its name in an object, which
    may have others, or the only item of an array. -/
inductive HasField (name : String) : (n value : Node) → Prop
  | member {members : List (String × Node)} {value : Node} : HasOnce members name value →
    HasField name (.object members) value
  | item {value : Node} : HasField name (.sequence [value]) value

theorem HasTag.isJson (h : HasTag name n tag rest) (hn : n.IsJson) : tag.IsJson ∧ rest.IsJson := by
  cases h with
  | member once =>
    refine ⟨hn.of_mem once.mem, ?_⟩
    cases hn with
    | mapping keys values =>
      exact .mapping (fun e he => keys e (List.map_subset _ (List.filter_subset_self _) he))
        fun e he => values e (List.map_subset _ (List.filter_subset_self _) he)
  | first =>
    cases hn with
    | sequence items =>
      rw [List.forall_mem_cons] at items
      exact ⟨items.1, .sequence items.2⟩

/-- A tagged value can be held as data if its tag and what is beside it can be. -/
theorem HasTag.check_iff (h : HasTag name n tag rest) :
    n.check = .ok () ↔ tag.check = .ok () ∧ rest.check = .ok () := by
  cases h with
  | @member members _ once =>
    simp only [Node.object, Node.check, Node.checkEntries_entriesOf, Readable, List.mem_filter]
    constructor
    · exact fun h => ⟨h _ once.mem, fun m hm => h m hm.1⟩
    · rintro ⟨ht, hr⟩ m hm
      by_cases hk : m.1 = name
      · rwa [once.mem_iff.1 ⟨hm, hk⟩]
      · exact hr m ⟨hm, by simpa using hk⟩
  | first =>
    simp only [Node.check, Node.checkItems]
    constructor
    · intro h
      obtain ⟨_, ht, hr⟩ := ok_of_bind h
      exact ⟨ht, hr⟩
    · rintro ⟨ht, hr⟩
      rw [ht, hr]
      rfl

theorem HasField.isJson (h : HasField name n value) (hn : n.IsJson) : value.IsJson := by
  cases h with
  | member once => exact hn.of_mem once.mem
  | item =>
    cases hn with
    | sequence items => exact items _ List.mem_cons_self

theorem HasField.check (h : HasField name n value) (hc : n.check = .ok ()) :
    value.check = .ok () := by
  cases h with
  | member once => exact Node.readable_of_check hc _ once.mem
  | item => exact Node.check_of_mem hc _ List.mem_cons_self

namespace Tags

variable {t : Tags τ}

/-- The keys of an object whose tag has been found are texts. -/
theorem keys_of_fromEntries {found : Option τ} {before entries : List (Node × Node)}
    {v : Variant τ} (h : t.fromEntries d name found before entries = .ok v) :
    ∀ e ∈ entries, ∃ key, keyText d e.1 = .ok key := by
  induction entries generalizing found before with
  | nil => nofun
  | cons e entries ih =>
    obtain ⟨k, x⟩ := e
    rw [List.forall_mem_cons]
    cases found with
    | none =>
      rw [fromEntries] at h
      obtain ⟨key, hk, h⟩ := ok_of_bind h
      refine ⟨⟨key, hk⟩, ?_⟩
      split at h
      · obtain ⟨_, -, h⟩ := ok_of_bind h
        exact ih h
      · obtain ⟨_, -, h⟩ := ok_of_bind h
        exact ih h
    | some tag =>
      rw [fromEntries] at h
      obtain ⟨key, hk, h⟩ := ok_of_bind h
      refine ⟨⟨key, hk⟩, ?_⟩
      split at h
      · cases h
      · obtain ⟨_, -, h⟩ := ok_of_bind h
        exact ih h

/-- What a tagged value is read of. -/
theorem split_eq_ok_iff (hn : n.IsJson) {v : Variant τ} : t.split name label d n = .ok v ↔
    ∃ tag, HasTag name n tag v.rest ∧ t.read d tag = .ok v.tag ∧ v.rest.check = .ok () := by
  constructor
  · intro h
    cases hn with
    | @mapping entries keys =>
      obtain ⟨members, rfl⟩ := Node.exists_entriesOf keys (keys_of_fromEntries h)
      obtain ⟨tag, once, ht, hc, hr⟩ := fromEntries_unknown_iff.1 h
      rw [hr]
      exact ⟨tag, .member once, ht, Node.checkEntries_entriesOf.2 hc⟩
    | @sequence items =>
      cases items with
      | nil => cases h
      | cons first items =>
        obtain ⟨tag, ht, h⟩ := ok_of_bind h
        obtain ⟨_, hc, h⟩ := ok_of_bind h
        cases h
        exact ⟨first, .first, ht, hc⟩
    | _ => cases h
  · rintro ⟨tag, h, ht, hc⟩
    obtain ⟨found, rest⟩ := v
    cases h with
    | member once =>
      exact fromEntries_unknown_iff.2 ⟨tag, once, ht, Node.checkEntries_entriesOf.1 hc, rfl⟩
    | @first _ items =>
      have held : Node.checkItems items = .ok () := hc
      simp only [split, ht, held]
      rfl

end Tags

namespace Fields

variable {read : Reader α} {absent : Reading α} {a : α}

/-- What a record with one field is read of. Where the field is left out, there must be a value
    that stands for it. -/
theorem closed_single_iff (hd : d ≠ .yaml) (hn : n.IsJson) (hc : n.check = .ok ()) :
    (single name [] read false absent).closed label d n = .ok a ↔
      (∃ value, HasField name n value ∧ read d value = .ok a) ∨
      ∃ members, n = .object members ∧ HasNone members name ∧ absent = .ok a := by
  have whole : (single name [] read false absent).IsWhole d := .single name read absent
  rw [closed_eq_ok_iff whole (List.pairwise_singleton _ name) hd hn (n.isWellFormed_of_check hc)]
  constructor
  · rintro ⟨look, has, hb⟩
    cases has with
    | @members members _ found =>
      have found := found name List.mem_cons_self
      simp only [single] at hb
      cases hl : look name <;> rw [hl] at found hb <;> cases found
      · exact .inr ⟨members, rfl, ‹_›, hb⟩
      · exact .inl ⟨_, .member ‹_›, hb⟩
    | items placed =>
      obtain _ | ⟨hl, ⟨⟩⟩ := placed
      exact .inl ⟨_, .item, by simpa only [single, hl] using hb⟩
  · rintro (⟨value, h, hv⟩ | ⟨members, rfl, lacking, ha⟩)
    · refine ⟨fun _ => some value, ?_, hv⟩
      cases h with
      | member once => exact .members (List.forall_mem_singleton.2 (.member once))
      | item => exact .items (.cons rfl .nil)
    · exact ⟨fun _ => none, .members (List.forall_mem_singleton.2 (.nothing lacking)), ha⟩

/-- What a record with one field is read of, if the field must be there. -/
theorem closed_required_iff (hd : d ≠ .yaml) (hn : n.IsJson) (hc : n.check = .ok ()) :
    (required name read).closed label d n = .ok a ↔
      ∃ value, HasField name n value ∧ read d value = .ok a :=
  (closed_single_iff hd hn hc).trans (or_iff_left fun ⟨_, _, _, h⟩ => nomatch h)

end Fields

end Document

namespace Anthropic.Event

variable {n rest : Node} {e : Event}

/-! ## Nodes that tell events -/

/-- The types of the events that say something. -/
def knownTypes : List String :=
  ["message_start", "content_block_delta", "message_delta", "message_stop", "error"]

/-- The tag of an addition to the message that is a text. An addition is held back until the type
    of its event is known, and then a tag may also be the number of a kind. -/
inductive NamesText : Node → Prop
  | text : NamesText (.text "text_delta")
  | number : NamesText (.number (.integer 0))

/-- The tag of any other addition. -/
inductive NamesOther : Node → Prop
  | text {type : String} : type ≠ "text_delta" → NamesOther (.text type)
  | number {i : Int} : 0 < i → NamesOther (.number (.integer i))

/-- Nothing is left of an array. Of an object there may be anything. -/
def Exhausted (n : Node) : Prop := ∀ items, n = .sequence items → items = []

theorem exhausted_object (members : List (String × Node)) : Exhausted (.object members) :=
  fun _ h => nomatch h

/-- What a change of the message says of its reason to end. -/
inductive SaysReason : Node → Option String → Prop
  | text {delta : Node} {reason : String} : HasField "stop_reason" delta (.text reason) →
    SaysReason delta (some reason)
  | null {delta : Node} : HasField "stop_reason" delta .null → SaysReason delta none
  | absent {members : List (String × Node)} : HasNone members "stop_reason" →
    SaysReason (.object members) none

/-- What is said of an error: its kind, which an object may leave out, and its message. -/
inductive SaysError : Node → (kind message : String) → Prop
  | object {members : List (String × Node)} {kind message : String} :
    HasOnce members "type" (.text kind) → HasOnce members "message" (.text message) →
      SaysError (.object members) kind message
  | unnamed {members : List (String × Node)} {message : String} : HasNone members "type" →
    HasOnce members "message" (.text message) → SaysError (.object members) "" message
  | array {kind message : String} : SaysError (.sequence [.text kind, .text message]) kind message

/-- The nodes that tell an event. -/
inductive Told : Node → Event → Prop
  | messageStart {n rest message : Node} {id : String} :
    HasTag "type" n (.text "message_start") rest → HasField "message" rest message →
      HasField "id" message (.text id) → Told n (.messageStart id)
  | textDelta {n rest delta tag inner : Node} {text : String} :
    HasTag "type" n (.text "content_block_delta") rest → HasField "delta" rest delta →
      HasTag "type" delta tag inner → NamesText tag → HasField "text" inner (.text text) →
      Told n (.textDelta text)
  | otherDelta {n rest delta tag inner : Node} :
    HasTag "type" n (.text "content_block_delta") rest → HasField "delta" rest delta →
      HasTag "type" delta tag inner → NamesOther tag → Exhausted inner → Told n .other
  | messageDelta {n rest delta : Node} {reason : Option String} :
    HasTag "type" n (.text "message_delta") rest → HasField "delta" rest delta →
      SaysReason delta reason → Told n (.messageDelta reason)
  | messageStop {n rest : Node} : HasTag "type" n (.text "message_stop") rest → Exhausted rest →
    Told n .messageStop
  | error {n rest error : Node} {kind message : String} :
    HasTag "type" n (.text "error") rest → HasField "error" rest error →
      SaysError error kind message → Told n (.error kind message)
  | unknown {n rest : Node} {type : String} : HasTag "type" n (.text type) rest →
    type ∉ knownTypes → Exhausted rest → Told n .other

/-- A payload tells an event: it is a text of JSON that can be held as data and tells the event. -/
def IsToldBy (payload : String) (e : Event) : Prop :=
  ∃ n, Json.tree (Text.Utf8.encode payload) = (n, true) ∧ n.check = .ok () ∧ Told n e

/-! ## Reading -/

theorem readEmpty_iff : rest.readEmpty = .ok () ↔ Exhausted rest := by
  rw [Node.readEmpty.eq_def, Exhausted]
  split
  · exact ⟨nofun, fun h => nomatch h _ rfl⟩
  · rename_i hr
    refine ⟨fun _ items hi => ?_, fun _ => rfl⟩
    cases items with
    | nil => rfl
    | cons first items => exact absurd hi (hr first items)

/-- The tag of an addition is that of a text, or another. -/
theorem readTag_iff {isText : Bool} : deltaKinds.read .buffered n = .ok isText ↔
    isText = true ∧ NamesText n ∨ isText = false ∧ NamesOther n := by
  constructor
  · intro h
    cases n with
    | text type =>
      obtain rfl := Except.ok.inj h
      by_cases ht : type = "text_delta"
      · exact .inl ⟨by simp [deltaKinds, ht], ht ▸ .text⟩
      · exact .inr ⟨by simp [deltaKinds, lookup_cons_if, ht], .text ht⟩
    | number x =>
      cases x with
      | real => cases h
      | integer i =>
        rw [Tags.read] at h
        split at h
        · cases h
        · rename_i hi
          obtain rfl := Except.ok.inj h
          by_cases hz : i = 0
          · exact .inl ⟨by simp [deltaKinds, hz], hz ▸ .number⟩
          · refine .inr ⟨?_, .number (by omega)⟩
            rw [List.getElem?_eq_none (by simp [deltaKinds]; omega)]
            rfl
    | _ => cases h
  · rintro (⟨rfl, h⟩ | ⟨rfl, h⟩)
    · cases h <;> rfl
    · cases h with
      | text ht =>
        rw [Tags.read, deltaKinds, lookup_cons_if, if_neg ht]
        rfl
      | @number i hi =>
        rw [Tags.read, if_neg (by omega), List.getElem?_eq_none (by simp [deltaKinds]; omega)]
        rfl

/-- An array that tells an error is that of its kind and its message. -/
theorem of_errorItems {label : String} {items : List Node} (hn : (Node.sequence items).IsJson)
    (h : errorFields.ofItems .buffered label items = .ok e) :
    ∃ kind message, items = [.text kind, .text message] ∧ e = .error kind message := by
  obtain ⟨known, hk, built⟩ := ok_of_bind h
  -- There may be two items, no more and no fewer.
  rcases items with _ | ⟨first, _ | ⟨second, _ | ⟨third, items⟩⟩⟩
  · cases hk
  · obtain ⟨_, -, hk⟩ := ok_of_bind hk
    cases hk
  · obtain ⟨_, -, hk⟩ := ok_of_bind hk
    obtain ⟨_, hrest, hk⟩ := ok_of_bind hk
    obtain ⟨_, -, hrest⟩ := ok_of_bind hrest
    cases hrest
    cases hk
    obtain ⟨_, message, hmake, hmessage, rfl⟩ := Fields.of_build_seq built
    obtain ⟨kind, hkind, rfl⟩ := Fields.of_build_map hmake
    have hkind : Reader.text .buffered first = .ok kind := hkind
    have hmessage : Reader.text .buffered second = .ok message := hmessage
    cases hn with
    | sequence isJson =>
      rw [(Reader.text_eq_ok_iff (isJson first (by simp))).1 hkind,
        (Reader.text_eq_ok_iff (isJson second (by simp))).1 hmessage]
      exact ⟨kind, message, rfl, rfl⟩
  · obtain ⟨_, -, hk⟩ := ok_of_bind hk
    obtain ⟨_, hrest, hk⟩ := ok_of_bind hk
    obtain ⟨_, -, hrest⟩ := ok_of_bind hrest
    cases hrest

section Rest

variable (hn : n.IsJson) (hc : n.check = .ok ())

include hn hc

/-- A record with one text is read of a node that has the text. -/
theorem readField_iff {name label s : String} :
    (Fields.required name .text).closed label .buffered n = .ok s ↔
      HasField name n (.text s) := by
  rw [Fields.closed_required_iff (by decide) hn hc]
  constructor
  · rintro ⟨value, h, hv⟩
    exact (Reader.text_eq_ok_iff (h.isJson hn)).1 hv ▸ h
  · exact fun h => ⟨_, h, rfl⟩

/-- An addition to the message is a text or something else. -/
theorem readDelta_iff : readDelta .buffered n = .ok e ↔ ∃ tag inner, HasTag "type" n tag inner ∧
    (NamesText tag ∧ (∃ text, HasField "text" inner (.text text) ∧ e = .textDelta text) ∨
      NamesOther tag ∧ Exhausted inner ∧ e = .other) := by
  constructor
  · intro h
    obtain ⟨⟨isText, inner⟩, hv, h⟩ := ok_of_bind h
    obtain ⟨tag, ht, hk, hi⟩ := (Tags.split_eq_ok_iff hn).1 hv
    refine ⟨tag, inner, ht, ?_⟩
    rcases readTag_iff.1 hk with ⟨rfl, named⟩ | ⟨rfl, named⟩
    · obtain ⟨text, hf, h⟩ := ok_of_bind h
      exact .inl ⟨named, text, (readField_iff (ht.isJson hn).2 hi).1 hf,
        (Except.ok.inj h).symm⟩
    · obtain ⟨_, he, h⟩ := ok_of_bind h
      exact .inr ⟨named, readEmpty_iff.1 he, (Except.ok.inj h).symm⟩
  · rintro ⟨tag, inner, ht, h⟩
    have hi := (ht.check_iff.1 hc).2
    have split (isText : Bool) (hk : deltaKinds.read .buffered tag = .ok isText) :
        deltaKinds.split "type" "internally tagged enum DeltaData" .buffered n =
          .ok ⟨isText, inner⟩ := (Tags.split_eq_ok_iff hn).2 ⟨tag, ht, hk, hi⟩
    rcases h with ⟨named, text, hf, rfl⟩ | ⟨named, he, rfl⟩
    · have field : (Fields.required "text" .text).closed "struct variant DeltaData::TextDelta"
          .buffered inner = .ok text := (readField_iff (ht.isJson hn).2 hi).2 hf
      rw [readDelta, split true (readTag_iff.2 (.inl ⟨rfl, named⟩))]
      show Event.textDelta <$> Fields.closed _ _ _ _ = _
      rw [field]
      rfl
    · rw [readDelta, split false (readTag_iff.2 (.inr ⟨rfl, named⟩))]
      show (do inner.readEmpty; return Event.other) = _
      rw [readEmpty_iff.2 he]
      rfl

/-- A change of the message is read of a node that says its reason to end, or none. -/
theorem readReason_iff {reason : Option String} :
    reasonFields.closed "struct MessageDeltaData" .buffered n = .ok reason ↔
      SaysReason n reason := by
  rw [reasonFields, Fields.optional, Fields.closed_single_iff (by decide) hn hc]
  constructor
  · rintro (⟨value, h, hv⟩ | ⟨members, rfl, none, ha⟩)
    · rw [Reader.option.eq_def] at hv
      split at hv
      · exact Except.ok.inj hv ▸ .null h
      · obtain ⟨s, hs, rfl⟩ := map_eq_ok_iff.1 hv
        exact .text ((Reader.text_eq_ok_iff (h.isJson hn)).1 hs ▸ h)
    · exact Except.ok.inj ha ▸ .absent none
  · rintro (h | h | none)
    · exact .inl ⟨_, h, rfl⟩
    · exact .inl ⟨_, h, rfl⟩
    · exact .inr ⟨_, rfl, none, rfl⟩

/-- What is told of an error is read of a node that says it. -/
theorem readError_iff : errorFields.closed "struct ErrorData" .buffered n = .ok e ↔
    ∃ kind message, SaysError n kind message ∧ e = .error kind message := by
  constructor
  · intro h
    have spellings : ∀ f ∈ errorFields.fields, f.spellings = [] := by decide
    rcases Fields.of_closed (by decide) spellings hn h with
      ⟨members, look, rfl, found, built⟩ | ⟨items, rfl, arranged⟩
    · obtain ⟨make, message, hmake, hm, rfl⟩ := Fields.of_build_seq built
      obtain ⟨kind, hk, rfl⟩ := Fields.of_build_map hmake
      obtain ⟨value, hl, hv⟩ := Fields.node_of_requiredUnder hm
      have said := found "message" (by decide)
      rw [hl] at said
      obtain ⟨once⟩ := said
      obtain rfl := (Reader.text_eq_ok_iff (hn.of_mem once.mem)).1 hv
      have named := found "type" (by decide)
      simp only [Fields.defaulting, Fields.single] at hk
      cases hl : look "type" <;> rw [hl] at named hk <;> cases named
      · obtain rfl := Except.ok.inj hk
        exact ⟨_, message, .unnamed ‹_› once, rfl⟩
      · rename_i typed
        obtain rfl := (Reader.text_eq_ok_iff (hn.of_mem typed.mem)).1 hk
        exact ⟨kind, message, .object typed once, rfl⟩
    · obtain ⟨kind, message, rfl, rfl⟩ := of_errorItems hn arranged
      exact ⟨kind, message, .array, rfl⟩
  · rintro ⟨kind, message, h, rfl⟩
    cases h with
    | object typed once =>
      exact Fields.closed_object (.seq (.map (.defaulting typed rfl) Event.error)
        (.required once rfl)) (Node.readable_of_check hc)
    | unnamed untyped once =>
      exact Fields.closed_object (.seq (.map (.left_out untyped _ rfl) Event.error)
        (.required once rfl)) (Node.readable_of_check hc)
    | array => rfl

/-- What an event has in a field of its own is read of the field. -/
theorem single_iff {α : Type} {variant name : String} {r : Reader α} {a : α} :
    single variant name r n = .ok a ↔ ∃ value, HasField name n value ∧ r .buffered value = .ok a :=
  Fields.closed_required_iff (by decide) hn hc

end Rest

/-- The kinds that types name. -/
inductive NamesKind : String → Kind → Prop
  | messageStart : NamesKind "message_start" .messageStart
  | contentBlockDelta : NamesKind "content_block_delta" .contentBlockDelta
  | messageDelta : NamesKind "message_delta" .messageDelta
  | messageStop : NamesKind "message_stop" .messageStop
  | error : NamesKind "error" .error
  | other {type : String} : type ∉ knownTypes → NamesKind type .other

theorem lookup_kinds {type : String} (h : type ∉ knownTypes) : kinds.named.lookup type = none := by
  refine List.lookup_eq_none_iff.2 fun m hm => bne_iff_ne.2 ?_
  rintro rfl
  exact h (List.mem_map_of_mem hm)

/-- In a text of JSON a type is a text. -/
theorem readType_iff {k : Kind} :
    kinds.read .json n = .ok k ↔ ∃ type, n = .text type ∧ NamesKind type k := by
  constructor
  · intro h
    obtain ⟨type, rfl, rfl⟩ := Tags.read_json h
    refine ⟨type, rfl, ?_⟩
    by_cases hk : type ∈ knownTypes
    · simp only [knownTypes, List.mem_cons, List.not_mem_nil, or_false] at hk
      rcases hk with rfl | rfl | rfl | rfl | rfl <;> constructor
    · rw [lookup_kinds hk]
      exact .other hk
  · rintro ⟨type, rfl, h⟩
    cases h with
    | other hk =>
      rw [Tags.read, lookup_kinds hk]
      rfl
    | _ => rfl

/-- An event is read of what stands beside its type, as its type says. -/
theorem read_iff_readRest (hn : n.IsJson) : read .json n = .ok e ↔
    ∃ type k rest, HasTag "type" n (.text type) rest ∧ NamesKind type k ∧ n.check = .ok () ∧
      readRest rest k = .ok e := by
  constructor
  · intro h
    obtain ⟨⟨k, rest⟩, hv, h⟩ := ok_of_bind h
    obtain ⟨tag, ht, hk, hc⟩ := (Tags.split_eq_ok_iff hn).1 hv
    obtain ⟨type, rfl, named⟩ := readType_iff.1 hk
    exact ⟨type, k, rest, ht, named, ht.check_iff.2 ⟨rfl, hc⟩, h⟩
  · rintro ⟨type, k, rest, ht, named, hc, h⟩
    have split : kinds.split "type" "internally tagged enum AnthropicEvent" .json n =
        .ok ⟨k, rest⟩ := (Tags.split_eq_ok_iff hn).2
      ⟨_, ht, readType_iff.2 ⟨type, rfl, named⟩, (ht.check_iff.1 hc).2⟩
    rw [read, split]
    exact h

/-- What stands beside the type of an event tells the event that is read of it. -/
theorem told_of_readRest (hn : n.IsJson) (hc : n.check = .ok ()) {type : String} {k : Kind}
    (ht : HasTag "type" n (.text type) rest) (named : NamesKind type k)
    (h : readRest rest k = .ok e) : Told n e := by
  have isJson := (ht.isJson hn).2
  have held := (ht.check_iff.1 hc).2
  cases named with
  | messageStart =>
    obtain ⟨id, hs, rfl⟩ := map_eq_ok_iff.1 h
    obtain ⟨message, hm, hi⟩ := (single_iff isJson held).1 hs
    exact .messageStart ht hm ((readField_iff (hm.isJson isJson) (hm.check held)).1 hi)
  | contentBlockDelta =>
    obtain ⟨delta, hd, h⟩ := (single_iff isJson held).1 h
    obtain ⟨tag, inner, hk, ⟨named, text, hf, rfl⟩ | ⟨named, he, rfl⟩⟩ :=
      (readDelta_iff (hd.isJson isJson) (hd.check held)).1 h
    · exact .textDelta ht hd hk named hf
    · exact .otherDelta ht hd hk named he
  | messageDelta =>
    obtain ⟨reason, hs, rfl⟩ := map_eq_ok_iff.1 h
    obtain ⟨delta, hd, hr⟩ := (single_iff isJson held).1 hs
    exact .messageDelta ht hd ((readReason_iff (hd.isJson isJson) (hd.check held)).1 hr)
  | messageStop =>
    obtain ⟨_, he, h⟩ := ok_of_bind h
    exact Except.ok.inj h ▸ .messageStop ht (readEmpty_iff.1 he)
  | error =>
    obtain ⟨error, he, h⟩ := (single_iff isJson held).1 h
    obtain ⟨kind, message, hs, rfl⟩ := (readError_iff (he.isJson isJson) (he.check held)).1 h
    exact .error ht he hs
  | other hk =>
    obtain ⟨_, he, h⟩ := ok_of_bind h
    exact Except.ok.inj h ▸ .unknown ht hk (readEmpty_iff.1 he)

/-- An event that a node tells is read of what stands beside its type. -/
theorem readRest_of_told (hn : n.IsJson) (hc : n.check = .ok ()) (told : Told n e) :
    ∃ type k rest, HasTag "type" n (.text type) rest ∧ NamesKind type k ∧
      readRest rest k = .ok e := by
  have inside {tag rest : Node} (ht : HasTag "type" n tag rest) :
      rest.IsJson ∧ rest.check = .ok () := ⟨(ht.isJson hn).2, (ht.check_iff.1 hc).2⟩
  cases told with
  | messageStart ht hm hi =>
    obtain ⟨isJson, held⟩ := inside ht
    exact ⟨_, _, _, ht, .messageStart, map_eq_ok_iff.2 ⟨_, (single_iff isJson held).2
      ⟨_, hm, (readField_iff (hm.isJson isJson) (hm.check held)).2 hi⟩, rfl⟩⟩
  | textDelta ht hd hk named hf =>
    obtain ⟨isJson, held⟩ := inside ht
    have delta := (readDelta_iff (hd.isJson isJson) (hd.check held)).2
      ⟨_, _, hk, .inl ⟨named, _, hf, rfl⟩⟩
    exact ⟨_, _, _, ht, .contentBlockDelta, (single_iff isJson held).2 ⟨_, hd, delta⟩⟩
  | otherDelta ht hd hk named he =>
    obtain ⟨isJson, held⟩ := inside ht
    have delta := (readDelta_iff (hd.isJson isJson) (hd.check held)).2
      ⟨_, _, hk, .inr ⟨named, he, rfl⟩⟩
    exact ⟨_, _, _, ht, .contentBlockDelta, (single_iff isJson held).2 ⟨_, hd, delta⟩⟩
  | messageDelta ht hd hr =>
    obtain ⟨isJson, held⟩ := inside ht
    have reason := (readReason_iff (hd.isJson isJson) (hd.check held)).2 hr
    exact ⟨_, _, _, ht, .messageDelta,
      map_eq_ok_iff.2 ⟨_, (single_iff isJson held).2 ⟨_, hd, reason⟩, rfl⟩⟩
  | messageStop ht he =>
    refine ⟨_, _, _, ht, .messageStop, ?_⟩
    rw [readRest, readEmpty_iff.2 he]
    rfl
  | error ht hf hs =>
    obtain ⟨isJson, held⟩ := inside ht
    have error := (readError_iff (hf.isJson isJson) (hf.check held)).2 ⟨_, _, hs, rfl⟩
    exact ⟨_, _, _, ht, .error, (single_iff isJson held).2 ⟨_, hf, error⟩⟩
  | unknown ht hk he =>
    refine ⟨_, _, _, ht, .other hk, ?_⟩
    rw [readRest, readEmpty_iff.2 he]
    rfl

/-- A node is read as the event that it tells, and nothing else is read. -/
theorem read_eq_ok_iff (hn : n.IsJson) :
    read .json n = .ok e ↔ n.check = .ok () ∧ Told n e := by
  rw [read_iff_readRest hn]
  constructor
  · rintro ⟨type, k, rest, ht, named, hc, h⟩
    exact ⟨hc, told_of_readRest hn hc ht named h⟩
  · rintro ⟨hc, told⟩
    obtain ⟨type, k, rest, ht, named, h⟩ := readRest_of_told hn hc told
    exact ⟨type, k, rest, ht, named, hc, h⟩

/-- A payload is read as the event that it tells, and nothing else is read. -/
theorem decodeFragment_eq_ok_iff {payload : String} :
    Provider.decodeFragment vendor read payload = .ok e ↔ IsToldBy payload e := by
  constructor
  · intro h
    obtain ⟨n, ht, hn, h⟩ := Json.tree_of_parse (ok_of_mapError h)
    exact ⟨n, ht, (read_eq_ok_iff hn).1 h⟩
  · rintro ⟨n, ht, h⟩
    have hn : n.IsJson := by simpa [ht] using Json.isJson_tree (Text.Utf8.encode payload)
    rw [Provider.decodeFragment, Json.parse_of_tree ht ((read_eq_ok_iff hn).2 h)]
    rfl

end Anthropic.Event

end InferenceGateway
