import InferenceGateway.Http.Url
import Mathlib.Data.List.Basic
import Mathlib.Data.List.TakeWhile

/-!
# Addresses of tasks

The path of a task is put after the address of its vendor. What this is the address of is told by
the address of the vendor alone: the scheme and the host are the same, and the path is below the
path of the vendor, with the steps that this one takes. Only if the vendor has an address with a
query or a fragment, the path becomes a part of that.

* `Url.IsBase`: the addresses of the web that a path can be put after.
* `Url.IsBase.exists_target`: where a path then leads.
-/

namespace InferenceGateway

namespace Text

section Cutting

variable {α : Type} [DecidableEq α] (separator : α)

/-- Cutting a row at each occurrence of a separator leaves what `List.splitOn` leaves. -/
theorem splitAt_eq_splitOn (row : List α) : splitAt separator row = row.splitOn separator := by
  induction row with
  | nil => rfl
  | cons x row ih =>
    rw [splitAt, List.foldr_cons, ← splitAt, ih, List.splitOn_cons_eq_if_modifyHead]
    by_cases hx : x = separator
    · rw [if_pos hx, if_pos (beq_iff_eq.2 hx)]
    · rw [if_neg hx, if_neg (by simpa using hx)]
      cases h : List.splitOn separator row with
      | nil => exact absurd h (List.splitOn_ne_nil _ _)
      | cons => rfl

theorem splitAt_ne_nil (row : List α) : splitAt separator row ≠ [] :=
  splitAt_eq_splitOn separator row ▸ List.splitOn_ne_nil _ _

/-- Two rows with a separator between them are cut as each of them is. -/
theorem splitAt_append_cons (xs ys : List α) :
    splitAt separator (xs ++ separator :: ys) = splitAt separator xs ++ splitAt separator ys := by
  simp only [splitAt_eq_splitOn]
  exact List.splitOn_append_cons_self xs ys

/-- The parts of a row with the separator between them are the row. -/
theorem intercalate_splitAt (row : List α) :
    [separator].intercalate (splitAt separator row) = row := by
  rw [splitAt_eq_splitOn, List.intercalate_splitOn]

variable {separator}

/-- A part of a row holds nothing but what the row holds. -/
theorem subset_of_mem_splitAt {row part : List α} (h : part ∈ splitAt separator row) :
    part ⊆ row := by
  obtain ⟨i, hi⟩ := List.mem_iff_getElem?.1 h
  have placed : part ∈ (splitAt separator row).intersperse [separator] :=
    List.mem_of_getElem? (List.getElem?_intersperse_two_mul.trans hi)
  rw [← intercalate_splitAt separator row]
  exact (List.infix_of_mem_flatten placed).subset

end Cutting

end Text

namespace Http.Url

variable {s t : List Char}

/-! ## Stages of reading -/

section Rows

variable {α : Type} {p : α → Bool} {x : α}

theorem takeWhile_append_cons (hx : ¬p x) (xs ys : List α) :
    (xs ++ x :: ys).takeWhile p = xs.takeWhile p := by
  rw [List.takeWhile_append, List.takeWhile_cons_of_neg hx, List.append_nil]
  split
  · rename_i whole
    exact ((List.takeWhile_prefix p).eq_of_length whole).symm
  · rfl

theorem dropWhile_append_cons (hx : ¬p x) (xs ys : List α) :
    (xs ++ x :: ys).dropWhile p = xs.dropWhile p ++ x :: ys := by
  rw [List.dropWhile_append, List.dropWhile_cons_of_neg hx]
  split
  · rename_i none
    rw [List.isEmpty_iff.1 none, List.nil_append]
  · rfl

theorem drop_takeWhile (p : α → Bool) (xs : List α) :
    xs.drop (xs.takeWhile p).length = xs.dropWhile p := by
  calc xs.drop (xs.takeWhile p).length
      = (xs.takeWhile p ++ xs.dropWhile p).drop (xs.takeWhile p).length := by
        rw [List.takeWhile_append_dropWhile]
    _ = xs.dropWhile p := List.drop_left

end Rows

/-- The characters of an address, without those that do not count. -/
def cleaned (s : List Char) : List Char :=
  ((s.dropWhile (·.toNat ≤ 0x20)).reverse.dropWhile (·.toNat ≤ 0x20)).reverse.filter
    fun c => c ≠ '\t' && c ≠ '\n' && c ≠ '\r'

theorem cleaned_append {c : Char} (hc : 0x20 < c.toNat) (ht : ∀ d ∈ t, 0x20 < d.toNat) :
    cleaned (s ++ [c] ++ t) = cleaned (s ++ [c]) ++ t := by
  have kept (d : Char) (hd : 0x20 < d.toNat) : ¬(decide (d.toNat ≤ 0x20)) := by simpa using hd
  have front (u : List Char) :
      (s ++ [c] ++ u).dropWhile (·.toNat ≤ 0x20) = s.dropWhile (·.toNat ≤ 0x20) ++ [c] ++ u := by
    simpa using dropWhile_append_cons (p := (·.toNat ≤ 0x20)) (kept c hc) s u
  have back (u : List Char) (hu : ∀ d ∈ u, 0x20 < d.toNat) :
      ((s.dropWhile (·.toNat ≤ 0x20) ++ [c] ++ u).reverse.dropWhile (·.toNat ≤ 0x20)).reverse =
        s.dropWhile (·.toNat ≤ 0x20) ++ [c] ++ u := by
    rcases List.eq_nil_or_concat' u with rfl | ⟨v, d, rfl⟩
    · simp [hc]
    · simp [hu d (by simp)]
  have visible : t.filter (fun c => c ≠ '\t' && c ≠ '\n' && c ≠ '\r') = t := by
    refine List.filter_eq_self.2 fun d hd => ?_
    have := ht d hd
    have differ (e : Char) (he : e.toNat ≤ 0x20) : d ≠ e := by
      rintro rfl
      omega
    simp [differ '\t' (by decide), differ '\n' (by decide), differ '\r' (by decide)]
  have whole := back [] (by simp)
  rw [List.append_nil] at whole
  rw [cleaned, cleaned, front, back t ht, ← List.append_nil (s ++ [c]), front, List.append_nil,
    whole, List.filter_append, visible]

theorem scheme?_append {scheme : String} {rest : List Char} (h : scheme? s = some (scheme, rest))
    (t : List Char) : scheme? (s ++ t) = some (scheme, rest ++ t) := by
  unfold scheme? at h ⊢
  simp only [drop_takeWhile] at h ⊢
  split at h
  · rename_i rest' hd
    -- The colon ends the name, whatever follows.
    have cut : s.takeWhile isSchemeChar ++ ':' :: rest' = s := by
      rw [← hd, List.takeWhile_append_dropWhile]
    have name : (s ++ t).takeWhile isSchemeChar = s.takeWhile isSchemeChar := by
      rw [← cut, List.append_assoc, List.cons_append, takeWhile_append_cons (by decide),
        takeWhile_append_cons (by decide)]
    have after : (s ++ t).dropWhile isSchemeChar = ':' :: (rest' ++ t) := by
      rw [List.dropWhile_append, hd]
      rfl
    rw [name, after]
    split at h
    · rename_i letter
      cases h
      exact if_pos letter
    · cases h
  · cases h

/-! ## Paths -/

/-- The characters that paths of tasks are written with. None of them has a meaning of its own
    besides the slash. -/
def plainChars : List Char := "abcdefghijklmnopqrstuvwxyz0123456789/".toList

/-- A path of which nothing is left out, and of which no character is percent-encoded. -/
def IsPlain (path : String) : Prop := ∀ c ∈ path.toList, c ∈ plainChars

instance (path : String) : Decidable (IsPlain path) :=
  decidable_of_iff (path.toList.all (plainChars.contains ·)) (by simp [IsPlain])

/-- What a test says of all plain characters. -/
theorem of_plain {p : Char → Bool} (h : plainChars.all p) {c : Char} (hc : c ∈ plainChars) :
    p c :=
  List.all_eq_true.1 h c hc

theorem visible_of_plain {c : Char} (hc : c ∈ plainChars) : 0x20 < c.toNat ∧ c.toNat < 0x7F := by
  simpa using of_plain (p := fun c => 0x20 < c.toNat && c.toNat < 0x7F) (by decide) hc

theorem allowed_of_plain {c : Char} (hc : c ∈ plainChars) : c ∉ forbiddenInPath := by
  simpa using of_plain (p := (! forbiddenInPath.contains ·)) (by decide) hc

theorem toLower_of_plain {c : Char} (hc : c ∈ plainChars) : c.toLower = c := by
  simpa using of_plain (p := fun c => c.toLower = c) (by decide) hc

/-- The segments of a path, each after a slash. -/
def slashed (segments : List String) : String := String.join (segments.map ("/" ++ ·))

theorem slashed_append (xs ys : List String) : slashed (xs ++ ys) = slashed xs ++ slashed ys := by
  simp [slashed]

theorem slashed_of_ne_nil {segments : List String} (h : segments ≠ []) :
    slashed segments = "/" ++ "/".intercalate segments := by
  induction segments with
  | nil => contradiction
  | cons s rest ih =>
    rcases rest with _ | ⟨t, rest⟩
    · simp [slashed]
    · rw [String.intercalate_cons_cons, ← List.singleton_append, slashed_append, ih (by simp)]
      simp [slashed, String.append_assoc]

/-- The segments that are kept after the steps of some more, the last first. -/
def steps (kept : List String) (segments : List String) : List String :=
  segments.foldl (fun kept s =>
    if stepOf s == ".." then kept.drop 1 else if stepOf s == "." then kept else s :: kept) kept

/-- All steps are taken before segments that are not at the end. -/
theorem walk_append {more : List String} (hm : more ≠ []) (kept segments : List String) :
    walk kept (segments ++ more) = walk (steps kept segments) more := by
  induction segments generalizing kept with
  | nil => rfl
  | cons s rest ih =>
    have inside : (rest ++ more).isEmpty = false := by simp [hm]
    rw [List.cons_append, walk, inside, Bool.false_and, if_neg Bool.false_ne_true, ih]
    rfl

/-- Segments that are no steps are kept. -/
theorem walk_of_no_steps {segments : List String}
    (h : ∀ s ∈ segments, stepOf s ≠ ".." ∧ stepOf s ≠ ".") (kept : List String) :
    walk kept segments = kept.reverse ++ segments := by
  induction segments generalizing kept with
  | nil => simp [walk]
  | cons s rest ih =>
    obtain ⟨⟨up, stay⟩, hrest⟩ := List.forall_mem_cons.1 h
    simp [walk, up, stay, ih hrest]

/-- All steps are taken. One at the end leaves an empty segment. -/
theorem walk_eq (kept : List String) {segments : List String} (h : segments ≠ []) :
    steps kept segments ≠ [] ∧ walk kept segments = (steps kept segments).reverse ∨
      walk kept segments = (steps kept segments).reverse ++ [""] := by
  obtain ⟨front, last, rfl⟩ := (List.eq_nil_or_concat' segments).resolve_left h
  rw [walk_append (List.cons_ne_nil _ _)]
  simp only [walk, steps, List.foldl_append, List.foldl_cons, List.foldl_nil, List.isEmpty_nil,
    Bool.true_and]
  by_cases up : stepOf last == ".."
  · exact .inr (by simp [up])
  · by_cases stay : stepOf last == "."
    · exact .inr (by simp [up, stay])
    · exact .inl (by simp [up, stay])

theorem walk_ne_nil (kept : List String) {segments : List String} (h : segments ≠ []) :
    walk kept segments ≠ [] := by
  rcases walk_eq kept h with ⟨hs, hw⟩ | hw <;> rw [hw]
  · simpa using hs
  · simp

/-- A segment as it is written in an address. -/
def written (segment : String) : String := String.ofList (encode forbiddenInPath segment.toList)

/-- The characters of plain paths are written as they are. -/
theorem written_of_plain {segment : String} (h : IsPlain segment) : written segment = segment := by
  have same : encode forbiddenInPath segment.toList = segment.toList := by
    rw [encode, List.flatMap_congr (g := fun c => [c]), List.flatMap_singleton']
    intro c hc
    obtain ⟨low, high⟩ := visible_of_plain (h c hc)
    simp [allowed_of_plain (h c hc)]
    omega
  rw [written, same, String.ofList_toList]

theorem points_of_not_mem {cs : List Char} (h : '%' ∉ cs) : points cs = cs := by
  fun_induction points cs with
  | case1 => simp at h
  | case2 c rest _ ih => rw [ih fun hm => h (List.mem_cons_of_mem _ hm)]
  | case3 => rfl

theorem toList_toLower (s : String) : s.toLower.toList = s.toList.map Char.toLower :=
  String.toList_map

/-- The segments of plain paths are no steps. -/
theorem stepOf_of_plain {segment : String} (h : IsPlain segment) :
    stepOf segment ≠ ".." ∧ stepOf segment ≠ "." := by
  have lower : segment.toLower.toList = segment.toList := by
    rw [toList_toLower]
    exact (List.map_congr_left fun c hc => toLower_of_plain (h c hc)).trans (List.map_id' _)
  have same : stepOf segment = segment := by
    rw [stepOf, lower, points_of_not_mem, String.ofList_toList]
    exact fun hm => absurd (h _ hm) (by decide)
  rw [same]
  constructor <;> rintro rfl <;> exact absurd h (by decide)

/-- The segments of a path. -/
def segments (cs : List Char) : List String := (Text.splitAt '/' cs).map String.ofList

theorem segments_ne_nil (cs : List Char) : segments cs ≠ [] := by
  simpa [segments] using Text.splitAt_ne_nil '/' cs

theorem segments_append_cons (cs ds : List Char) :
    segments (cs ++ '/' :: ds) = segments cs ++ segments ds := by
  rw [segments, Text.splitAt_append_cons, List.map_append]
  rfl

/-- A path is its segments, each after a slash. -/
theorem path_eq (cs : List Char) : path cs = slashed ((walk [] (segments cs)).map written) := by
  rw [slashed_of_ne_nil]
  · rfl
  · simpa using walk_ne_nil [] (segments_ne_nil cs)

/-- The segments of a plain path are plain, and the path is what they make. -/
theorem segments_of_plain {p : String} (h : IsPlain p) :
    (∀ s ∈ segments p.toList, IsPlain s) ∧ slashed (segments p.toList) = "/" ++ p := by
  constructor
  · intro s hs
    obtain ⟨part, hp, rfl⟩ := List.mem_map.1 hs
    intro c hc
    rw [String.toList_ofList] at hc
    exact h c (Text.subset_of_mem_splitAt hp hc)
  · rw [slashed_of_ne_nil (segments_ne_nil _)]
    congr 1
    rw [← String.toList_inj, String.toList_intercalate, segments, List.map_map]
    simpa [Function.comp_def] using Text.intercalate_splitAt '/' p.toList

/-- A plain path is kept as it is, after the segments that are kept before it. -/
theorem slashed_walk {p : String} (h : IsPlain p) (kept : List String) :
    slashed ((walk kept (segments p.toList)).map written) =
      slashed (kept.reverse.map written) ++ "/" ++ p := by
  obtain ⟨plain, whole⟩ := segments_of_plain h
  have same : (segments p.toList).map written = segments p.toList :=
    (List.map_congr_left fun s hs => written_of_plain (plain s hs)).trans (List.map_id' _)
  rw [walk_of_no_steps fun s hs => stepOf_of_plain (plain s hs), List.map_append, slashed_append,
    same, whole, String.append_assoc]

/-- What comes before a path that is put after another. -/
def stem : List Char → String
  | [] => ""
  | _ :: cs => slashed ((steps [] (segments cs)).reverse.map written)

/-- The first path is what comes before the others, except perhaps for a slash. -/
theorem path_eq_stem (cs : List Char) :
    path (cs.drop 1) = stem cs ∨ path (cs.drop 1) = stem cs ++ "/" := by
  rw [path_eq]
  rcases cs with _ | ⟨c, cs⟩
  · exact .inr (slashed_walk (p := "") (by decide) [])
  · rw [List.drop_one, List.tail_cons]
    rcases walk_eq [] (segments_ne_nil cs) with ⟨-, h⟩ | h <;> rw [h]
    · exact .inl rfl
    · right
      rw [List.map_append, slashed_append]
      rfl

/-- A plain path that is put after another. -/
theorem path_append {p : String} (h : IsPlain p) (cs : List Char) :
    path ((cs ++ '/' :: p.toList).drop 1) = stem cs ++ "/" ++ p := by
  rw [path_eq]
  rcases cs with _ | ⟨c, cs⟩
  · exact slashed_walk h []
  · rw [List.cons_append, List.drop_one, List.tail_cons, segments_append_cons,
      walk_append (segments_ne_nil _)]
    exact slashed_walk h _

/-! ## Addresses -/

/-- A character that begins neither a query nor a fragment. -/
def isPathChar (c : Char) : Bool := c ≠ '?' && c ≠ '#'

theorem isPathChar_of_plain {c : Char} (hc : c ∈ plainChars) : isPathChar c :=
  of_plain (by decide) hc

/-- What is written after a host: the path, and the query and the fragment. -/
def afterHost (rest : List Char) : String :=
  path ((rest.takeWhile isPathChar).drop 1) ++ tail (rest.dropWhile isPathChar)

/-- Without a query and a fragment only the path is written. -/
theorem afterHost_eq_path {rest : List Char} (h : ∀ c ∈ rest, isPathChar c) :
    afterHost rest = path (rest.drop 1) := by
  rw [afterHost, List.takeWhile_eq_self_iff.2 h, List.dropWhile_eq_nil_iff.2 h]
  exact String.append_empty

theorem lookup_of_web {scheme : String} (h : scheme = "http" ∨ scheme = "https") :
    (usualPorts.lookup scheme).isSome := by
  rcases h with rfl | rfl <;> decide

/-- An address of the web from its host on. -/
theorem withHost_of_web {scheme : String} (hw : scheme = "http" ∨ scheme = "https")
    (s : List Char) : withHost scheme s =
      (hostAndPort? scheme (afterLast '@' (s.takeWhile isAuthorityChar))).map fun (host, port) =>
        let user := beforeLast '@' (s.takeWhile isAuthorityChar)
        ⟨scheme, some host, scheme ++ "://" ++ keptUser user ++ host ++ port ++
          afterHost (s.dropWhile isAuthorityChar), login? user⟩ := by
  have path : (fun c : Char => decide (c ≠ '?') && decide (c ≠ '#')) = isPathChar := rfl
  simp only [withHost, lookup_of_web hw, drop_takeWhile, path, afterHost]
  cases hostAndPort? scheme (afterLast '@' (s.takeWhile isAuthorityChar)) with
  | none => simp
  | some found => simp [String.append_assoc]

/-- No host is empty. -/
theorem plain?_nil : Host.plain? [] = none := by
  have decoded : Text.Utf8.decode (Text.percentDecode (Text.Utf8.encode (String.ofList []))) =
      .ok "" := rfl
  have lower : "".toLower.isEmpty := by simp [← String.toList_inj, toList_toLower]
  simp [Host.plain?, decoded, lower]

theorem hostAndPort?_nil (scheme : String) : hostAndPort? scheme [] = none := by
  simp [hostAndPort?, host?, plain?_nil]

/-- A backslash is a slash before a query and a fragment. -/
def slashOf (c : Char) : Char := if c = '\\' then '/' else c

/-- An address of the web from its host on, given what follows the colon of its scheme. -/
def fromHost (rest : List Char) : List Char :=
  ((rest.takeWhile isPathChar).map slashOf).dropWhile (· = '/') ++ rest.dropWhile isPathChar

theorem fromHost_eq {rest : List Char} (h : ∀ c ∈ rest, isPathChar c) :
    fromHost rest = (rest.map slashOf).dropWhile (· = '/') := by
  rw [fromHost, List.takeWhile_eq_self_iff.2 h, List.dropWhile_eq_nil_iff.2 h, List.append_nil]

theorem isPathChar_of_mem_fromHost {rest : List Char} (h : ∀ c ∈ rest, isPathChar c) :
    ∀ c ∈ fromHost rest, isPathChar c := by
  intro c hc
  rw [fromHost_eq h] at hc
  obtain ⟨d, hd, rfl⟩ := List.mem_map.1 ((List.dropWhile_suffix _).subset hc)
  rw [slashOf]
  split
  · decide
  · exact h d hd

/-- A plain path behind an address of the web, be it behind a query, is kept as it is. -/
theorem fromHost_append {rest : List Char} {p : String} (h : fromHost rest ≠ []) (hp : IsPlain p) :
    fromHost (rest ++ '/' :: p.toList) = fromHost rest ++ '/' :: p.toList := by
  have plain : ∀ c ∈ '/' :: p.toList, c ∈ plainChars := List.forall_mem_cons.2 ⟨by decide, hp⟩
  by_cases path : ∀ c ∈ rest, isPathChar c
  · have whole : ∀ c ∈ rest ++ '/' :: p.toList, isPathChar c :=
      List.forall_mem_append.2 ⟨path, fun c hc => isPathChar_of_plain (plain c hc)⟩
    have same : ('/' :: p.toList).map slashOf = '/' :: p.toList := by
      refine (List.map_congr_left fun c hc => if_neg ?_).trans (List.map_id' _)
      rintro rfl
      exact absurd (plain _ hc) (by decide)
    rw [fromHost_eq path] at h ⊢
    rw [fromHost_eq whole, List.map_append, same, List.dropWhile_append,
      if_neg (by simpa using h)]
  · have query : ¬(rest.dropWhile isPathChar).isEmpty := by
      rwa [List.isEmpty_iff, List.dropWhile_eq_nil_iff]
    have front : (rest ++ '/' :: p.toList).takeWhile isPathChar = rest.takeWhile isPathChar := by
      rw [List.takeWhile_append, if_neg]
      intro whole
      exact path (List.takeWhile_eq_self_iff.1 ((List.takeWhile_prefix _).eq_of_length whole))
    rw [fromHost, front, List.dropWhile_append, if_neg query, fromHost, List.append_assoc]

/-- An address of the web. -/
theorem parse_of_web {text scheme : String} {rest : List Char}
    (h : scheme? (cleaned text.toList) = some (scheme, rest))
    (hw : scheme = "http" ∨ scheme = "https") : parse text = withHost scheme (fromHost rest) := by
  have front : rest.take (rest.length - (rest.dropWhile isPathChar).length) =
      rest.takeWhile isPathChar := by
    have whole := congrArg List.length
      (List.takeWhile_append_dropWhile (p := isPathChar) (l := rest))
    rw [List.length_append] at whole
    rw [← whole, Nat.add_sub_cancel]
    exact (List.prefix_iff_eq_take.1 (List.takeWhile_prefix _)).symm
  unfold cleaned at h
  simp only [parse]
  rw [h]
  simp only [Option.bind_eq_bind, Option.bind_some, lookup_of_web hw, if_true]
  rw [fromHost, ← front]
  rfl

theorem scheme_of_withHost {scheme : String} {u : Url} (h : withHost scheme s = some u) :
    u.scheme = scheme := by
  simp only [withHost, Option.bind_eq_bind] at h
  split at h <;>
  · obtain ⟨_, -, h⟩ := Option.bind_eq_some_iff.1 h
    cases h
    rfl

/-- The scheme of an address is the one that is written. -/
theorem scheme_of_parse {text : String} {u : Url} (h : parse text = some u) :
    ∃ rest, scheme? (cleaned text.toList) = some (u.scheme, rest) := by
  simp only [parse, Option.bind_eq_bind, Option.bind_eq_some_iff] at h
  obtain ⟨⟨scheme, rest⟩, hs, h⟩ := h
  suffices same : u.scheme = scheme from ⟨rest, same ▸ hs⟩
  split at h
  · exact scheme_of_withHost h
  · split at h
    · exact scheme_of_withHost h
    · cases h
      rfl

theorem subset_of_scheme? {scheme : String} {rest : List Char}
    (h : scheme? (cleaned s) = some (scheme, rest)) : rest ⊆ s := by
  have after : rest ⊆ cleaned s := by
    unfold scheme? at h
    simp only [drop_takeWhile] at h
    split at h
    · rename_i rest' hd
      split at h
      · cases h
        intro c hc
        refine (List.dropWhile_suffix isSchemeChar).subset ?_
        rw [hd]
        exact List.mem_cons_of_mem _ hc
      · cases h
    · cases h
  intro c hc
  have kept := (List.mem_filter.1 (after hc)).1
  have inner := (List.dropWhile_suffix _).subset (List.mem_reverse.1 kept)
  exact (List.dropWhile_suffix _).subset (List.mem_reverse.1 inner)

/-- The addresses of the web that a path can be put after. White space at the end would be before
    it. -/
structure IsBase (base : String) (u : Url) : Prop where
  parse_eq : parse base = some u
  web : u.scheme = "http" ∨ u.scheme = "https"
  ends : ∀ c ∈ base.toList.getLast?, 0x20 < c.toNat

namespace IsBase

variable {base : String} {u : Url}

/-- The address is read on behind a base as it is read there. -/
theorem cleaned_append (h : IsBase base u) {t : List Char} (ht : ∀ d ∈ t, 0x20 < d.toNat) :
    cleaned (base.toList ++ t) = cleaned base.toList ++ t := by
  obtain ⟨parsed, -, ends⟩ := h
  rcases List.eq_nil_or_concat' base.toList with hb | ⟨s, c, hb⟩
  · rw [String.toList_eq_nil_iff.1 hb] at parsed
    contradiction
  · rw [hb]
    exact Url.cleaned_append (ends c (by simp [hb])) ht

/-- What a base is made of: a scheme, a user, a host with a port, and what comes after them. -/
theorem parts (h : IsBase base u) : ∃ rest host port,
    let authority := (fromHost rest).takeWhile isAuthorityChar
    scheme? (cleaned base.toList) = some (u.scheme, rest) ∧
      hostAndPort? u.scheme (afterLast '@' authority) = some (host, port) ∧
      u.host = some host ∧ u.login = login? (beforeLast '@' authority) ∧
      u.text = u.scheme ++ "://" ++ keptUser (beforeLast '@' authority) ++ host ++ port ++
        afterHost ((fromHost rest).dropWhile isAuthorityChar) := by
  obtain ⟨rest, hs⟩ := scheme_of_parse h.parse_eq
  have parsed := h.parse_eq
  rw [parse_of_web hs h.web, withHost_of_web h.web, Option.map_eq_some_iff] at parsed
  obtain ⟨⟨host, port⟩, found, hu⟩ := parsed
  refine ⟨rest, host, port, hs, found, ?_⟩
  generalize u.scheme = scheme at hu ⊢
  subst hu
  exact ⟨rfl, rfl, rfl⟩

/-- A base has a host. -/
theorem host_isSome (h : IsBase base u) : u.host.isSome := by
  obtain ⟨_, _, _, -, -, host, -, -⟩ := h.parts
  rw [host]
  rfl

/-- A path is put behind all that comes after the host of a base. -/
theorem parse_append (h : IsBase base u) : ∃ front rest, u.text = front ++ afterHost rest ∧
    ((∀ c ∈ base.toList, isPathChar c) → ∀ c ∈ rest, isPathChar c) ∧
    ∀ p, IsPlain p → parse (base ++ "/" ++ p) =
      some { u with text := front ++ afterHost (rest ++ '/' :: p.toList) } := by
  obtain ⟨rest, host, port, hs, found, hostOf, loginOf, text⟩ := h.parts
  have hasHost : fromHost rest ≠ [] := by
    intro none
    rw [none, afterLast, List.takeWhile_nil, List.contains_nil, if_neg Bool.false_ne_true,
      hostAndPort?_nil] at found
    cases found
  refine ⟨_, (fromHost rest).dropWhile isAuthorityChar, text, fun path c hc => ?_, fun p hp => ?_⟩
  · have path' : ∀ c ∈ rest, isPathChar c := fun c hc => path c (subset_of_scheme? hs hc)
    exact isPathChar_of_mem_fromHost path' c ((List.dropWhile_suffix _).subset hc)
  · have visible : ∀ d ∈ '/' :: p.toList, 0x20 < d.toNat :=
      List.forall_mem_cons.2 ⟨by decide, fun d hd => (visible_of_plain (hp d hd)).1⟩
    have scheme : scheme? (cleaned (base ++ "/" ++ p).toList) =
        some (u.scheme, rest ++ '/' :: p.toList) := by
      rw [String.toList_append, String.toList_append, List.append_assoc]
      exact (congrArg scheme? (h.cleaned_append visible)).trans (scheme?_append hs _)
    rw [parse_of_web scheme h.web, withHost_of_web h.web, fromHost_append hasHost hp,
      takeWhile_append_cons (by decide), found, dropWhile_append_cons (by decide),
      Option.map_some, hostOf, loginOf]

/-- A path is put behind the path of a base, if this has no query and no fragment. -/
theorem below (h : IsBase base u) (path : ∀ c ∈ base.toList, isPathChar c) :
    ∃ before, (u.text = before ∨ u.text = before ++ "/") ∧
      ∀ p, IsPlain p → parse (base ++ "/" ++ p) = some { u with text := before ++ "/" ++ p } := by
  obtain ⟨front, rest, text, noQuery, parsed⟩ := h.parse_append
  have before := noQuery path
  refine ⟨front ++ stem rest, ?_, fun p hp => ?_⟩
  · rw [text, afterHost_eq_path before]
    rcases path_eq_stem rest with same | slash
    · exact .inl (by rw [same])
    · exact .inr (by rw [slash, String.append_assoc])
  · have whole : ∀ c ∈ rest ++ '/' :: p.toList, isPathChar c :=
      List.forall_mem_append.2 ⟨before, List.forall_mem_cons.2
        ⟨by decide, fun c hc => isPathChar_of_plain (hp c hc)⟩⟩
    rw [parsed p hp, afterHost_eq_path whole, path_append hp]
    simp only [String.append_assoc]

/-- Where a path leads that is put after a base. -/
theorem exists_target (h : IsBase base u) {p : String} (hp : IsPlain p) :
    ∃ target, parse (base ++ "/" ++ p) = some target ∧ target.scheme = u.scheme ∧
      target.host = u.host ∧ target.login = u.login ∧
      ((∀ c ∈ base.toList, isPathChar c) → ∃ before,
        (u.text = before ∨ u.text = before ++ "/") ∧ target.text = before ++ "/" ++ p) := by
  obtain ⟨front, rest, -, -, parsed⟩ := h.parse_append
  refine ⟨_, parsed p hp, rfl, rfl, rfl, fun path => ?_⟩
  obtain ⟨before, hu, below⟩ := h.below path
  have same := Option.some.inj ((parsed p hp).symm.trans (below p hp))
  exact ⟨before, hu, congrArg Url.text same⟩

end IsBase

end Http.Url

end InferenceGateway
