import InferenceGateway.Proofs.FieldReading
import InferenceGateway.Proofs.JsonRecognition
import InferenceGateway.Proofs.Pagination

/-!
# Accepted tokens

Which texts are page tokens. A client should hand back a token as it is, but the gateway reads any
text that tells a position in the right form: base 64 of an object with the position under the one
name, or of an array of nothing else. All other texts are refused, and none of them is taken for
the beginning of the listing.

The other members of an object are passed over. Their names must be texts, but their values must
only be written as values are; what stands in their strings does not matter.

* `Page.Tells`, `Page.Accepted`: the grammar of tokens, said without the machines that read them.
* `Page.decode?_eq_some_iff`: a token is read exactly if it is one of the grammar.
* `Page.start_accepted`: so a listing begins where such a token says, and all else is refused.
-/

namespace InferenceGateway

open Document Text Json.Grammar Numeral

namespace Page

/-! ## The grammar of tokens -/

/-- A member of an object as it is written, of which the name is a text. -/
def IsNamed (name : String) (value item : Bytes) : Prop :=
  ∃ key, Denotes key (Utf8.encode name) ∧ IsMember key value item

/-- The text of a value that tells a position. -/
inductive Tells (index : Nat) : Bytes → Prop
  /-- An array of the position alone. -/
  | array {text : Bytes} : InArray [Json.digitBytes index] text → Tells index text
  /-- An object with the position under its name, which no other member has. -/
  | object {members : List (String × Bytes)} {items : List Bytes} {text : Bytes} :
    members.filter (·.1 = "index") = [("index", Json.digitBytes index)] →
      (∀ m ∈ members, IsValue m.2) →
        List.Forall₂ (fun m item => IsNamed m.1 m.2 item) members items → InObject items text →
          Tells index text

/-- A token for a position of 64 bits: the written form of bytes that tell it, with white space
    around the whole and around what is told. -/
def Accepted (token : String) (index : Nat) : Prop :=
  index < wordLimit ∧ ∃ text bytes, Tells index text ∧ Padded text bytes ∧
    Utf8.encode (trim token) = Base64.encode bytes

/-! ## Members and their names -/

section Members

variable {α β : Type} {R : String × α → String × β → Prop} {xs : List (String × α)}
  {ys : List (String × β)}

/-- A name that one member has has one among related members. -/
theorem exists_only (h : List.Forall₂ R xs ys) (hn : ∀ x y, R x y → x.1 = y.1) {name : String}
    {x : String × α} (once : xs.filter (·.1 = name) = [x]) :
    ∃ y, ys.filter (·.1 = name) = [y] ∧ R x y := by
  have only : List.Forall₂ R (xs.filter (·.1 = name)) (ys.filter (·.1 = name)) :=
    List.rel_filter (fun x y hxy => by simp only [hn x y hxy]) h
  rw [once] at only
  generalize ys.filter (·.1 = name) = found at only ⊢
  cases only with
  | cons hxy hs =>
    cases hs
    exact ⟨_, rfl, hxy⟩

/-- Entries whose keys are texts are those of members. -/
theorem exists_entriesOf {R : String × α → Node → Prop} {entries : List (Node × Node)}
    (h : List.Forall₂ (fun x e => e.1 = .text x.1 ∧ R x e.2) xs entries) :
    ∃ members, entries = entriesOf members ∧
      List.Forall₂ (fun x m => x.1 = m.1 ∧ R x m.2) xs members := by
  induction h with
  | nil => exact ⟨[], rfl, .nil⟩
  | @cons x e _ _ he _ ih =>
    obtain ⟨members, rfl, hm⟩ := ih
    refine ⟨(x.1, e.2) :: members, ?_, .cons ⟨rfl, he.2⟩ hm⟩
    rw [← Prod.eta e, he.1]
    rfl

end Members

/-! ## Texts of the grammar are read -/

variable {index : Nat} {text bytes : Bytes}

/-- The record of a token, read of an object. -/
theorem closed_object (hi : index < wordLimit) {members : List (String × Node)}
    (once : HasOnce members "index" (.number (.integer index)))
    (hw : ∀ m ∈ members, m.2.isWellFormed) :
    tokenFields.closed "struct PageToken" .json (.object members) = .ok index :=
  Fields.closed_of_isWellFormed (.required once (Reader.natural_of_lt hi "usize" .json)) hw

/-- A text that tells a position is read as the position. -/
theorem Tells.parse (h : Tells index text) (hi : index < wordLimit) (hp : Padded text bytes) :
    Json.parse (tokenFields.closed "struct PageToken") bytes = .ok index := by
  cases h with
  | array ha =>
    have adds : List.Forall₂
        (fun (_ : Bytes) item => Json.arrays.Adds (· = .number (.integer index)) item)
        [Json.digitBytes index] [Json.digitBytes index] :=
      .cons (Json.reads_digitBytes hi).item .nil
    obtain ⟨nodes, hn, built⟩ := Json.Brackets.tree ha adds hp
    cases hn with
    | cons hn hs =>
      cases hs
      rw [hn] at built
      exact Json.parse_of_tree built (Fields.ofItems_required_iff.2
        ⟨_, rfl, Reader.natural_of_lt hi "usize" .json⟩)
  | @object members items _ once hv hm ho =>
    have adds : List.Forall₂ (fun m item => Json.objects.Adds (fun e => e.1 = .text m.1 ∧
        (e.2.isWellFormed ∧ (m.2 = Json.digitBytes index → e.2 = .number (.integer index)))) item)
        members items := by
      refine ((List.forall₂_and_left members items).2 ⟨hv, hm⟩).imp fun m item h => ?_
      obtain ⟨hv, key, hk, hm⟩ := h
      have name (found : List Json.Token) := Json.Token.read_text hk found
      by_cases digits : m.2 = Json.digitBytes index
      · have reads := Json.reads_digitBytes hi
        rw [← digits] at reads
        exact (reads.member name hm).imp fun e he => ⟨he.1, he.2 ▸ rfl, fun _ => he.2⟩
      · exact (hv.reads.member name hm).imp fun e he => ⟨he.1, he.2, fun h => absurd h digits⟩
    obtain ⟨entries, he, built⟩ := Json.Brackets.tree ho adds hp
    obtain ⟨nodes, rfl, hn⟩ := exists_entriesOf (R := fun m n =>
      n.isWellFormed ∧ (m.2 = Json.digitBytes index → n = .number (.integer index))) he
    refine Json.parse_of_tree built (closed_object hi ?_ fun m hm => ?_)
    · obtain ⟨m, only, name, -, number⟩ := exists_only hn (fun _ _ h => h.1) once
      rw [HasOnce, only, ← Prod.eta m, ← name, number rfl]
    · obtain ⟨_, _, h⟩ := exists_of_forall₂ hn m hm
      exact h.1

/-! ## Texts that are read are in the grammar -/

/-- The member of a name as it is written, and its text. -/
theorem exists_named {items : List Bytes} {members : List (String × Node)}
    (h : List.Forall₂ Json.ShowsMember items (entriesOf members)) :
    ∃ named : List (String × Bytes),
      List.Forall₂ (fun m item => IsNamed m.1 m.2 item) named items ∧
        List.Forall₂ (fun m n => m.1 = n.1 ∧ Json.Shows m.2 n.2) named members := by
  refine Json.exists_beside (List.forall₂_map_right_iff.1 h) fun item m _ hm => ?_
  obtain ⟨key, value, hm, hk, hv⟩ := hm
  exact ⟨(m.1, value), ⟨key, hk.2 m.1 rfl, hm⟩, rfl, hv⟩

/-- A text that is read as a position tells it. -/
theorem tells_of_parse (h : Json.parse (tokenFields.closed "struct PageToken") bytes = .ok index) :
    index < wordLimit ∧ ∃ text, Tells index text ∧ Padded text bytes := by
  obtain ⟨n, complete, isJson, read⟩ := Json.tree_of_parse h
  obtain ⟨ts, lexes, tr⟩ := Json.tree_eq complete
  have spellings : ∀ f ∈ tokenFields.fields, f.spellings = [] := List.forall_mem_singleton.2 rfl
  rcases Fields.of_closed (by decide) spellings isJson read with
    ⟨members, look, rfl, found, built⟩ | ⟨nodes, rfl, built⟩
  · obtain ⟨node, looked, natural⟩ := Fields.node_of_requiredUnder built
    have once := found "index" List.mem_cons_self
    rw [looked] at once
    obtain ⟨once⟩ := once
    obtain ⟨rfl, hi⟩ := (Reader.natural_eq_ok_iff (isJson.of_mem once.mem)).1 natural
    refine ⟨hi, ?_⟩
    obtain ⟨text, hp, items, ho, hs⟩ := tr.exists_members lexes
    obtain ⟨named, hm, hs⟩ := exists_named hs
    refine ⟨text, .object ?_ (fun m hm => ?_) hm ho, hp⟩
    · obtain ⟨m, only, name, -, digits⟩ := exists_only hs.flip (fun _ _ h => h.1.symm) once
      rw [only, ← Prod.eta m, name, digits index rfl]
    · obtain ⟨_, -, hv⟩ := exists_of_forall₂ hs.flip m hm
      exact hv.1
  · obtain ⟨node, rfl, natural⟩ := Fields.ofItems_required_iff.1 built
    have number : node.IsJson := by
      cases isJson with
      | sequence items => exact items node (List.mem_singleton_self _)
    obtain ⟨rfl, hi⟩ := (Reader.natural_eq_ok_iff number).1 natural
    refine ⟨hi, ?_⟩
    obtain ⟨text, hp, items, ha, hs⟩ := tr.exists_items lexes
    cases hs with
    | cons hv hs =>
      cases hs
      rw [hv.2 index rfl] at ha
      exact ⟨text, .array ha, hp⟩

/-! ## Tokens -/

/-- A token is read as a position exactly if it is an accepted token for it. -/
theorem decode?_eq_some_iff {token : String} :
    decode? token = some index ↔ Accepted token index := by
  rw [decode?, Option.bind_eq_bind, Option.bind_eq_some_iff]
  constructor
  · rintro ⟨bytes, decoded, parsed⟩
    have parsed : Json.parse (tokenFields.closed "struct PageToken") bytes = .ok index := by
      cases hp : Json.parse (tokenFields.closed "struct PageToken") bytes with
      | error e => simp [hp, Except.toOption] at parsed
      | ok i => simpa [hp, Except.toOption] using parsed
    obtain ⟨hi, text, tells, padded⟩ := tells_of_parse parsed
    exact ⟨hi, text, bytes, tells, padded, (Base64.encode_of_decode decoded).symm⟩
  · rintro ⟨hi, text, bytes, tells, padded, encoded⟩
    refine ⟨bytes, by rw [encoded, Base64.decode_encode], ?_⟩
    rw [tells.parse hi padded]
    rfl

/-- A text that is no accepted token is not read. -/
theorem decode?_eq_none_iff {token : String} :
    decode? token = none ↔ ∀ index, ¬Accepted token index := by
  rw [Option.eq_none_iff_forall_ne_some]
  exact forall_congr' fun index => not_congr decode?_eq_some_iff

/-- A page is refused exactly if its token is not read. -/
theorem page_error_iff {α : Type} (d : Directory) (view : Route → α) (size : Nat) (token : String) :
    d.page view size (some token) = .error (.badRequest (.pageToken token)) ↔
      decode? token = none := by
  rw [Directory.page, window, start]
  cases decode? token <;> simp [Except.map]

/-- A listing begins where an accepted token says. All other texts are refused as tokens, and so
    are the requests that have them. -/
theorem start_accepted (token : String) (d : Directory) :
    (∀ index, start (some token) = .ok index ↔ Accepted token index) ∧
    (start (some token) = .error (.pageToken token) ↔ ∀ index, ¬Accepted token index) ∧
    (d.listEndpoints (some token) = .error (.badRequest (.pageToken token)) ↔
      ∀ index, ¬Accepted token index) ∧
    (d.searchRoutes (some token) = .error (.badRequest (.pageToken token)) ↔
      ∀ index, ¬Accepted token index) := by
  refine ⟨fun index => ?_, ?_, ?_, ?_⟩
  · rw [← decode?_eq_some_iff, start]
    cases decode? token <;> simp
  · rw [← decode?_eq_none_iff, start]
    cases decode? token <;> simp
  · rw [← decode?_eq_none_iff]
    exact page_error_iff d _ _ token
  · rw [← decode?_eq_none_iff]
    exact page_error_iff d _ _ token

/-- What is looked at and what is not. An object is refused for a name that is half a surrogate
    pair, although the position stands beside it under its own name. A byte that is part of no text
    does no harm in a value that is passed over. -/
theorem unread_name_and_value :
    let name : Bytes := [0x5C, 0x75, 0x64, 0x38, 0x30, 0x30]
    let index : Bytes := quoted (Utf8.encode "index") ++ [0x3A, 0x33]
    let refused := "eyJcdWQ4MDAiOjAsImluZGV4IjozfQ=="
    let read := "eyJhIjoi/yIsImluZGV4IjozfQ=="
    (∃ text, InObject [quoted name ++ [0x3A, 0x30], index] text ∧ IsContent name ∧
      Utf8.encode refused = Base64.encode text ∧
        start (some refused) = .error (.pageToken refused)) ∧
    ∃ text, InObject [quoted [0x61] ++ 0x3A :: quoted [0xFF], index] text ∧
      (∀ s, Utf8.encode s ≠ text) ∧ Utf8.encode read = Base64.encode text ∧
        start (some read) = .ok 3 := by
  intro name index refused read
  have pair (first second : Bytes) :
      InObject [first, second] (0x7B :: (first ++ 0x2C :: second ++ [0x7D])) := by
    have alone (item : Bytes) : Padded item item := ⟨[], [], .nil, .nil, by simp⟩
    exact .row (.cons (alone first) (.last (alone second)))
  have half : IsCode [0x64, 0x38, 0x30, 0x30] 0xD800 := ⟨rfl, rfl⟩
  refine ⟨⟨_, pair _ _, .code half .nil, ?_, ?_⟩, ⟨_, pair _ _, ?_, ?_, ?_⟩⟩
  · decide +kernel
  · have none : decode? refused = none := by decide +kernel
    rw [start, none]
  · intro s hs
    have broken : (Utf8.decode (Utf8.encode s)).toOption = none := by
      rw [hs]
      decide +kernel
    rw [Utf8.decode_encode] at broken
    cases broken
  · decide +kernel
  · have some : decode? read = some 3 := by decide +kernel
    rw [start, some]

end Page

end InferenceGateway
