import InferenceGateway.Proofs.Pagination
import InferenceGateway.Proofs.Reachability
import InferenceGateway.Proofs.TaskAddress
import Mathlib

/-!
# Tokens in queries

A client puts the token of the next page into a query as it is. Two of the characters of base 64
mean something else there, or in a path: `+` is a space, and `/` ends a segment. No token has
either of them. They stand for the values 62 and 63, and the bytes of the JSON text of a position
are such that no group of six bits has these values: the first three groups of three bytes of
ASCII never have, and the fourth is the lower part of a byte, which here is none of the few that
end in five ones.

* `Text.Base64.encode_plain`: what plain bytes are written as.
* `Page.encode_eq`: the characters of a token.
* `Server.pageToken_query`: the token that is found in a query, however its characters are spelled
  and whatever the other parameters are.
* `Server.pages_from_query`: the listing that is given in answer.
-/

namespace InferenceGateway

/-! ## Base 64 without its last two characters -/

namespace Text.Base64

/-- A byte of ASCII whose lower six bits are not one of the two greatest values. -/
def IsPlain (b : UInt8) : Prop := b.toNat < 128 ∧ b.toNat % 64 < 62

instance : DecidablePred IsPlain := fun _ => inferInstanceAs (Decidable (_ ∧ _))

/-- A letter or a digit of ASCII. -/
def IsAlphanumeric (b : UInt8) : Prop := b < 0x80 ∧ (Char.ofNat b.toNat).isAlphanum

instance : DecidablePred IsAlphanumeric := fun _ => inferInstanceAs (Decidable (_ ∧ _))

theorem isAlphanumeric_digit {n : Nat} (h : n < 62) : IsAlphanumeric (digit n) := by
  have all : ∀ n : Fin 62, IsAlphanumeric (digit n) := by decide
  exact all ⟨n, h⟩

/-- Plain bytes are written with letters and digits, which padding follows. -/
theorem encode_plain {bytes : Bytes} (h : ∀ b ∈ bytes, IsPlain b) :
    ∃ word, ∃ n ≤ 2, encode bytes = word ++ List.replicate n pad ∧
      ∀ b ∈ word, IsAlphanumeric b := by
  induction bytes using encode.induct with
  | case1 a b c rest ih =>
    simp only [List.forall_mem_cons] at h
    obtain ⟨⟨ha, -⟩, ⟨hb, -⟩, ⟨hc, hl⟩, hr⟩ := h
    obtain ⟨word, n, hn, he, hw⟩ := ih hr
    refine ⟨_ :: _ :: _ :: _ :: word, n, hn, by rw [encode, he]; rfl, ?_⟩
    simp only [List.forall_mem_cons]
    exact ⟨isAlphanumeric_digit (by omega), isAlphanumeric_digit (by omega),
      isAlphanumeric_digit (by omega), isAlphanumeric_digit (by omega), hw⟩
  | case2 a b =>
    simp only [List.forall_mem_cons] at h
    obtain ⟨⟨ha, -⟩, ⟨hb, -⟩, -⟩ := h
    refine ⟨[_, _, _], 1, by decide, rfl, ?_⟩
    simp only [List.forall_mem_cons]
    exact ⟨isAlphanumeric_digit (by omega), isAlphanumeric_digit (by omega),
      isAlphanumeric_digit (by omega), List.forall_mem_nil _⟩
  | case3 a =>
    obtain ⟨ha, -⟩ := List.forall_mem_singleton.1 h
    refine ⟨[_, _], 2, by decide, rfl, ?_⟩
    simp only [List.forall_mem_cons]
    exact ⟨isAlphanumeric_digit (by omega), isAlphanumeric_digit (by omega), List.forall_mem_nil _⟩
  | case4 => exact ⟨[], 0, by decide, rfl, List.forall_mem_nil _⟩

end Text.Base64

/-! ## The characters of a token -/

namespace Page

open Text

theorem isPlain_of_mem_digitBytes {n : Nat} : ∀ b ∈ Json.digitBytes n, Base64.IsPlain b := by
  have digit : ∀ k : Fin 10, Base64.IsPlain (Json.digitByte k) := by decide
  -- The digits are written from the left, so the induction takes off the last one.
  induction n using Nat.base_induction 10 (by decide) with
  | single k hk =>
    rw [Json.digitBytes_of_lt hk]
    exact List.forall_mem_singleton.2 (digit ⟨k, hk⟩)
  | digit m k hk hm ih =>
    rw [Json.digitBytes_append hm hk]
    exact List.forall_mem_append.2 ⟨ih, List.forall_mem_singleton.2 (digit ⟨k, hk⟩)⟩

/-- The JSON text of a position is of plain bytes. -/
theorem isPlain_of_mem_print (index : Nat) :
    ∀ b ∈ Utf8.encode (Json.object [("index", .integer index)]).print, Base64.IsPlain b := by
  have marks : ∀ b ∈ Json.charBytes ("\x7b\"index\":".toList), Base64.IsPlain b := by decide +kernel
  have text : (Json.object [("index", .integer index)]).chars =
      "\x7b\"index\":".toList ++ (Json.integerChars index ++ ['\x7d']) := rfl
  rw [Json.encode_print, text, Json.charBytes_append, Json.charBytes_append,
    Json.charBytes_integerChars, List.forall_mem_append, List.forall_mem_append]
  exact ⟨marks, isPlain_of_mem_digitBytes, by decide +kernel⟩

/-- A token is of letters and digits, and at most two characters of padding at its end. -/
theorem encode_eq (index : Nat) : ∃ word, ∃ n ≤ 2,
    encode index = word ++ String.ofList (List.replicate n '=') ∧
      ∀ c ∈ word.toList, c.isAlphanum := by
  obtain ⟨word, n, hn, he, hw⟩ := Base64.encode_plain (isPlain_of_mem_print index)
  have ascii : ∀ b ∈ word ++ List.replicate n Base64.pad, b < 0x80 := by
    refine List.forall_mem_append.2 ⟨fun b hb => (hw b hb).1, fun b hb => ?_⟩
    rw [List.eq_of_mem_replicate hb]
    decide
  refine ⟨String.ofList (word.map fun b => Char.ofNat b.toNat), n, hn, ?_, ?_⟩
  · rw [encode, he, Utf8.decodeLenient_ascii ascii, List.map_append, List.map_replicate,
      String.ofList_append]
    rfl
  · rw [String.toList_ofList, List.forall_mem_map]
    exact fun b hb => (hw b hb).2

/-- A character of a token is a letter, a digit or padding. -/
theorem of_mem_encode {index : Nat} {c : Char} (h : c ∈ (encode index).toList) :
    c.isAlphanum ∨ c = '=' := by
  obtain ⟨word, n, -, he, hw⟩ := encode_eq index
  rw [he, String.toList_append, String.toList_ofList, List.mem_append] at h
  exact h.imp (hw c) List.eq_of_mem_replicate

end Page

/-! ## Queries -/

namespace Text

theorem Utf8.encode_intercalate (separator : String) (parts : List String) :
    encode (separator.intercalate parts) = (encode separator).intercalate (parts.map encode) := by
  induction parts with
  | nil => rfl
  | cons p parts ih =>
    cases parts with
    | nil => simp
    | cons q parts =>
      rw [String.intercalate_cons_cons, encode_append, encode_append, ih]
      simp [List.intercalate_cons_cons]

variable {text spelled : String}

/-- A spelling of a text has no other characters of ASCII than the text, `%` and digits. -/
theorem Spells.not_mem (h : Spells text spelled) {b : UInt8} (ha : b < 0x80)
    (ht : Char.ofNat b.toNat ∉ text.toList) (hm : b ≠ 0x25)
    (hd : b ∉ upperDigits ∧ b ∉ lowerDigits) : b ∉ Utf8.encode spelled :=
  BytesSpell.not_mem h (fun hb => ht (Utf8.ofNat_mem_of_mem_encode hb ha)) hm
    (not_isHexDigit hd.1 hd.2)

namespace Form

/-- A text that has neither `+` nor `%` is read back from each of its spellings. -/
theorem decode_of_spells (h : Spells text spelled) (hplus : '+' ∉ text.toList)
    (hpercent : '%' ∉ text.toList) : decode (Utf8.encode spelled) = text := by
  have plus : 0x2B ∉ Utf8.encode spelled :=
    h.not_mem (by decide) hplus (by decide) (by decide +kernel)
  have same : (Utf8.encode spelled).map (fun b => if b = 0x2B then 0x20 else b) =
      Utf8.encode spelled := by
    refine (List.map_congr_left fun b hb => if_neg ?_).trans (List.map_id' _)
    rintro rfl
    exact plus hb
  have percent : 0x25 ∉ Utf8.encode text :=
    fun hb => hpercent (Utf8.ofNat_mem_of_mem_encode hb (by decide))
  rw [decode, same, percentDecode_of_spell h percent, Utf8.decodeLenient_encode]

/-- A name and a value with `=` between them. The name has no `=`, but the value may. -/
theorem parameter_eq {name : String} (hn : '=' ∉ name.toList) (value : String) :
    parameter (Utf8.encode (name ++ "=" ++ value)) =
      (decode (Utf8.encode name), decode (Utf8.encode value)) := by
  have bytes : Utf8.encode (name ++ "=" ++ value) =
      Utf8.encode name ++ 0x3D :: Utf8.encode value := by
    rw [Utf8.encode_append, Utf8.encode_append, List.append_assoc]
    rfl
  have before : ∀ b ∈ Utf8.encode name, decide (b ≠ 0x3D) = true := by
    intro b hb
    rw [decide_eq_true_eq]
    rintro rfl
    exact hn (Utf8.ofNat_mem_of_mem_encode hb (by decide))
  rw [parameter, bytes, List.takeWhile_append_of_pos before, List.dropWhile_append_of_pos before]
  simp

/-- The parameters of a query that is made of parts with `&` between them. -/
theorem parameters_intercalate {parts : List String} (hp : ∀ p ∈ parts, '&' ∉ p.toList)
    (hn : parts ≠ []) : parameters ("&".intercalate parts) =
      ((parts.map Utf8.encode).filter (! ·.isEmpty)).map parameter := by
  have mark : Utf8.encode "&" = [0x26] := by decide +kernel
  have cut : ∀ p ∈ parts.map Utf8.encode, 0x26 ∉ p :=
    List.forall_mem_map.2 fun p hm hb =>
      hp p hm (Utf8.ofNat_mem_of_mem_encode hb (by decide))
  rw [parameters, Utf8.encode_intercalate, mark, splitAt_eq_splitOn,
    List.splitOn_intercalate _ cut (by simpa using hn)]

end Form

end Text

namespace Server

open Text

/-- A part of a query that is a parameter of another name than that of the page token, or is
    empty. -/
def IsOther (part : String) : Prop :=
  '&' ∉ part.toList ∧ (Form.parameter (Utf8.encode part)).1 ≠ tokenParameter

instance : DecidablePred IsOther := fun _ => inferInstanceAs (Decidable (_ ∧ _))

/-- A query with a page token and other parameters. -/
def queryOf (before : List String) (spelled : String) (after : List String) : String :=
  "&".intercalate (before ++ (tokenParameter ++ "=" ++ spelled) :: after)

variable {token spelled : String} {before after : List String}

/-- No page token is found in other parameters. -/
theorem filter_of_isOther {parts : List String} (h : ∀ p ∈ parts, IsOther p) :
    ((((parts.map Utf8.encode).filter (! ·.isEmpty)).map Form.parameter).filter
      (·.1 = tokenParameter)) = [] := by
  simp only [List.filter_eq_nil_iff, List.mem_filter, List.mem_map, decide_eq_true_eq]
  rintro _ ⟨_, ⟨⟨p, hp, rfl⟩, -⟩, rfl⟩
  exact (h p hp).2

/-- The token of a query, however its characters are spelled and whatever the other parameters
    are. -/
theorem pageToken_query (hs : Spells token spelled)
    (ht : ∀ c ∈ ['+', '%', '&'], c ∉ token.toList) (hb : ∀ p ∈ before, IsOther p)
    (ha : ∀ p ∈ after, IsOther p) :
    pageToken (some (queryOf before spelled after)) = .ok (some token) := by
  have own : '&' ∉ (tokenParameter ++ "=" ++ spelled).toList := by
    have name : '&' ∉ (tokenParameter ++ "=").toList := by decide +kernel
    rw [String.toList_append, List.mem_append]
    refine not_or_intro name fun hm => ?_
    exact hs.not_mem (b := 0x26) (by decide) (ht _ (by simp)) (by decide) (by decide +kernel)
      (List.mem_flatMap.2 ⟨'&', hm, by decide⟩)
  have cut : ∀ p ∈ before ++ (tokenParameter ++ "=" ++ spelled) :: after, '&' ∉ p.toList :=
    List.forall_mem_append.2 ⟨fun p hp => (hb p hp).1,
      List.forall_mem_cons.2 ⟨own, fun p hp => (ha p hp).1⟩⟩
  have value : Form.parameter (Utf8.encode (tokenParameter ++ "=" ++ spelled)) =
      (tokenParameter, token) := by
    have name : Form.decode (Utf8.encode tokenParameter) = tokenParameter := by decide +kernel
    rw [Form.parameter_eq (by decide +kernel), name,
      Form.decode_of_spells hs (ht _ (by simp)) (ht _ (by simp))]
  have there : (Utf8.encode (tokenParameter ++ "=" ++ spelled)).isEmpty = false := by
    have name : Utf8.encode tokenParameter ≠ [] := by decide +kernel
    simp [Utf8.encode_append, name]
  rw [pageToken, Option.getD_some, queryOf, Form.parameters_intercalate cut (by simp)]
  simp only [List.map_append, List.map_cons, List.filter_append, List.filter_cons, there,
    Bool.not_false, if_true, value, filter_of_isOther hb, filter_of_isOther ha, decide_true]
  rfl

/-- The paths of the list of endpoints. -/
def endpointLists : List String := ["/api/2.0/endpoints", "/api/2.0/endpoints/"]

/-- The paths of the list of routes. -/
def routeLists : List String := ["/api/2.0/gateway/routes", "/api/2.0/gateway/routes/"]

/-- The page of a list from a position on, and the token of the next one. -/
def pageFrom {α : Type} (all : List α) (size index : Nat) : Listing α :=
  ⟨(all.drop index).take size,
    if index + size < all.length then some (Page.encode (index + size)) else none⟩

/-- A token is of letters and digits, with at most two characters of padding at its end. So it can
    be put into a query as it is, or with any of its characters spelled with `%`, among any other
    parameters. It is found there, and the listing goes on at its position. -/
theorem pages_from_query (g : Gateway) (hg : g.table.size ≤ Page.lastIndex) {index : Nat}
    (hi : index < Numeral.wordLimit) (hs : Spells (Page.encode index) spelled)
    (hb : ∀ p ∈ before, IsOther p) (ha : ∀ p ∈ after, IsOther p) (now : Nat)
    (body : Except String Bytes) :
    let query := queryOf before spelled after
    let endpoints := pageFrom (g.table.routes.map Route.toEndpoint)
      Directory.usualEndpointsPerPage index
    let routes := pageFrom (g.table.routes.map Route.toView) Directory.usualRoutesPerPage index
    (∃ word, ∃ n ≤ 2, Page.encode index = word ++ String.ofList (List.replicate n '=') ∧
      ∀ c ∈ word.toList, c.isAlphanum) ∧
    pageToken (some query) = .ok (some (Page.encode index)) ∧
    (∀ path ∈ endpointLists, answer g now ⟨"GET", path, some query, body⟩ =
      reply (.ofJson 200 (endpoints.toJson "endpoints" Endpoint.toJson))) ∧
    ∀ path ∈ routeLists, answer g now ⟨"GET", path, some query, body⟩ =
      reply (.ofJson 200 (routes.toJson "routes" RouteView.toJson)) := by
  intro query endpoints routes
  have clean : ∀ c ∈ ['+', '%', '&'], c ∉ (Page.encode index).toList := by
    have marks : ∀ c ∈ ['+', '%', '&'], ¬(c.isAlphanum ∨ c = '=') := by simp
    exact fun c hc hm => marks c hc (Page.of_mem_encode hm)
  have found : pageToken (some query) = .ok (some (Page.encode index)) :=
    pageToken_query hs clean hb ha
  have started : Page.start (some (Page.encode index)) = .ok index := by
    have limit : Numeral.wordLimit = Page.lastIndex + 1 := by decide
    exact Page.start_encode (by omega)
  have listed : ∀ path ∈ endpointLists, Target.resolve "GET" path = .listEndpoints := by
    decide +kernel
  have searched : ∀ path ∈ routeLists, Target.resolve "GET" path = .searchRoutes := by
    decide +kernel
  -- No page is without room, so the room of a page is its usual size.
  have page {α : Type} (view : Route → α) (size : Nat) (h : 0 < size) :
      g.directory.page view size (some (Page.encode index)) =
        .ok (pageFrom (g.table.routes.map view) size index) := by
    rw [Directory.page_eq hg started, pageFrom, List.length_map, Nat.max_eq_left h]
    rfl
  refine ⟨Page.encode_eq index, found, fun path hp => ?_, fun path hp => ?_⟩
  · have listing : g.directory.listEndpoints (some (Page.encode index)) = .ok endpoints :=
      page Route.toEndpoint Directory.usualEndpointsPerPage (by decide)
    rw [answer, listed path hp]
    simp only [found, Except.bind, listing]
    rfl
  · have listing : g.directory.searchRoutes (some (Page.encode index)) = .ok routes :=
      page Route.toView Directory.usualRoutesPerPage (by decide)
    rw [answer, searched path hp]
    simp only [found, Except.bind, listing]
    rfl

/-- The second of two endpoints, with one character of its token spelled and with other
    parameters, one of which is empty. -/
theorem pages_from_query_second :
    let route (name : String) : Route :=
      ⟨name, .chat, ⟨"m", "p", ⟨none, none, []⟩⟩, ⟨.chat, .unsupporting "p" fun _ => true⟩⟩
    let g : Gateway := ⟨.builtin, ⟨["a", "b"].map route, by decide⟩, none, .zero⟩
    let query := "a=%26&&page_token=eyJpbmRleCI6MX0%3d&page_tokens=b"
    pageToken (some query) = .ok (some "eyJpbmRleCI6MX0=") ∧
      answer g 0 ⟨"GET", "/api/2.0/endpoints/", some query, .ok []⟩ =
        reply (.ofJson 200 (.object [("endpoints", .array [(route "b").toEndpoint.toJson])])) := by
  intro route g query
  have token : Page.encode 1 = "eyJpbmRleCI6MX0=" := by decide +kernel
  have spells : Spells (Page.encode 1) "eyJpbmRleCI6MX0%3d" := by
    have plain : Utf8.encode "eyJpbmRleCI6MX0=" = Utf8.encode "eyJpbmRleCI6MX0" ++ [0x3D] := by
      decide +kernel
    have spelled : Utf8.encode "eyJpbmRleCI6MX0%3d" =
        Utf8.encode "eyJpbmRleCI6MX0" ++ [0x25, 0x33, 0x64] := by
      decide +kernel
    rw [token, Spells, plain, spelled]
    exact (BytesSpell.refl _).append <|
      .escaped _ (.inl (by decide +kernel)) (.inr (by decide +kernel)) .nil
  have whole : query = queryOf ["a=%26", ""] "eyJpbmRleCI6MX0%3d" ["page_tokens=b"] := by
    decide +kernel
  have before : ∀ p ∈ ["a=%26", ""], IsOther p := by decide +kernel
  have after : ∀ p ∈ ["page_tokens=b"], IsOther p := by decide +kernel
  obtain ⟨-, found, endpoints, -⟩ :=
    pages_from_query g (by decide) (by decide) spells before after 0 (.ok [])
  rw [token, ← whole] at found
  refine ⟨found, ?_⟩
  rw [whole, endpoints _ (by decide +kernel)]
  rfl

end Server

end InferenceGateway
