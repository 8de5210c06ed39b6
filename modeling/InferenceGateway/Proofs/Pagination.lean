import InferenceGateway.Directory
import InferenceGateway.Proofs.PageToken

/-!
# Pages of a listing

A client that follows the tokens of a listing sees each item once, in order, wherever it
begins. A position and the token made for it are the same (`Page.decode?_encode`), so a page
says where the next one begins, although it says so in base 64.

* `Directory.page_eq`: what is on a page, and whether there is a next one.
* `Walk`: the pages that a client sees from a token on. There is one walk from each token
  that is accepted (`walk_of_start`, `Walk.unique`), and its pages, one after the other, are
  the items from the position of the token on.
* `Directory.paginates`: this holds in both views of a table, for all sizes of pages.
-/

namespace InferenceGateway

/-! ## One page -/

namespace Page

/-- The items of a page: those that follow its position, as many as it has room for. -/
theorem items_windowAt {α : Type} {all : List α} (h : all.length ≤ lastIndex)
    (index size : Nat) : (windowAt all.length index size).items all =
      (all.drop index).take (max size 1) := by
  simp only [windowAt, Window.items]
  rcases Nat.lt_or_ge index all.length with hi | hi
  · rw [Nat.min_eq_left (Nat.le_of_lt hi), List.take_eq_take_iff, List.length_drop]
    omega
  · rw [Nat.min_eq_right hi, List.drop_of_length_le (Nat.le_refl _),
      List.drop_of_length_le hi, List.take_nil, List.take_nil]

/-- There is a next page only if there is an item on it. Its token is that of its position,
    which is not beyond the greatest one. -/
theorem next_windowAt {length : Nat} (h : length ≤ lastIndex) (index size : Nat) :
    (windowAt length index size).next =
      if index + max size 1 < length then some (encode (index + max size 1)) else none := by
  simp only [windowAt]
  by_cases hn : index + max size 1 < length
  · -- The next position is within the list, so it is no greater than the greatest one.
    have hs : min (index + max size 1) lastIndex = index + max size 1 := by omega
    rw [hs, if_pos hn]
  · rw [if_neg (by omega), if_neg hn]

/-- A listing goes on at the position that its token was made for. -/
theorem start_encode {index : Nat} (h : index ≤ lastIndex) :
    start (some (encode index)) = .ok index := by
  have hi : index < Numeral.wordLimit := by
    have : lastIndex < Numeral.wordLimit := by decide
    omega
  rw [start, decode?_encode hi]

end Page

namespace Directory

variable {α : Type} {d : Directory} {token : Option String} {s : Nat}

/-- The items and the next token of a page. -/
theorem page_eq (hd : d.table.size ≤ Page.lastIndex) (hs : Page.start token = .ok s)
    (view : Route → α) (size : Nat) : d.page view size token =
      .ok ⟨((d.table.routes.map view).drop s).take (max size 1),
        if s + max size 1 < d.table.size then some (Page.encode (s + max size 1)) else none⟩ := by
  rw [page, Page.window, hs]
  simp only [Except.map]
  rw [Page.next_windowAt hd, Table.size, Page.items_windowAt hd, List.map_take, List.map_drop]

end Directory

/-! ## Walks -/

/-- The pages that a client sees which follows the tokens of a listing, up to a page without
    one. -/
inductive Walk {α : Type} (call : Option String → Except GatewayError (Listing α)) :
    Option String → List (Listing α) → Prop
  | last {token : Option String} {page : Listing α} :
    call token = .ok page → page.next = none → Walk call token [page]
  | more {token : Option String} {page : Listing α} {next : String} {pages : List (Listing α)} :
    call token = .ok page → page.next = some next → Walk call (some next) pages →
      Walk call token (page :: pages)

/-- There is one walk from a token at most. -/
theorem Walk.unique {α : Type} {call : Option String → Except GatewayError (Listing α)}
    {token : Option String} {pages others : List (Listing α)} (h : Walk call token pages)
    (h' : Walk call token others) : pages = others := by
  induction h generalizing others with
  | last hc hn =>
    cases h' with
    | last hc' => rw [Except.ok.inj (hc.symm.trans hc')]
    | more hc' hn' =>
      obtain rfl := Except.ok.inj (hc.symm.trans hc')
      rw [hn] at hn'
      cases hn'
  | more hc hn _ ih =>
    cases h' with
    | last hc' hn' =>
      obtain rfl := Except.ok.inj (hc.symm.trans hc')
      rw [hn] at hn'
      cases hn'
    | more hc' hn' hw =>
      obtain rfl := Except.ok.inj (hc.symm.trans hc')
      obtain rfl := Option.some.inj (hn.symm.trans hn')
      rw [ih hw]

/-- What a client sees of a list from a position on: a page with room for so many items, and
    all pages of its walk. -/
structure Paginates {α : Type} (call : Option String → Except GatewayError (Listing α))
    (all : List α) (room : Nat) (token : Option String) (s : Nat) : Prop where
  /-- A page holds the items that follow, as many as it has room for, and there is a next
      one exactly if there is an item on it. -/
  page : ∃ l, call token = .ok l ∧ l.items = (all.drop s).take room ∧
    (l.next.isSome ↔ s + room < all.length)
  /-- There is one walk. It sees each item once, in order, and no page of it is empty, unless
      there are no items. -/
  walk : ∃ pages, Walk call token pages ∧ (∀ others, Walk call token others → others = pages) ∧
    pages.flatMap Listing.items = all.drop s ∧ (s < all.length → ∀ l ∈ pages, l.items ≠ []) ∧
    (all.length ≤ s → pages = [⟨[], none⟩])

namespace Directory

variable {α : Type} {d : Directory} {token : Option String} {s : Nat}

/-- A client sees the items from the position of its token on, whatever the view and the size
    of the pages. -/
theorem walk_of_start (hd : d.table.size ≤ Page.lastIndex) (hs : Page.start token = .ok s)
    (view : Route → α) (size : Nat) : ∃ pages, Walk (d.page view size) token pages ∧
      pages.flatMap Listing.items = (d.table.routes.map view).drop s ∧
      (s < d.table.size → ∀ l ∈ pages, l.items ≠ []) ∧
      (d.table.size ≤ s → pages = [⟨[], none⟩]) := by
  -- The induction is on the number of items that are left. A next page begins further on, as
  -- a page has room for an item, and it begins within the table.
  induction hn : d.table.size - s using Nat.strongRecOn generalizing token s with
  | ind n ih =>
    have hp := page_eq hd hs view size
    have hl : (d.table.routes.map view).length = d.table.size := List.length_map ..
    have nonempty : s < d.table.size →
        ((d.table.routes.map view).drop s).take (max size 1) ≠ [] := by
      intro h
      rw [← List.length_pos_iff, List.length_take, List.length_drop]
      omega
    by_cases hm : s + max size 1 < d.table.size
    · rw [if_pos hm] at hp
      obtain ⟨pages, hw, hf, ho, -⟩ :=
        ih (d.table.size - (s + max size 1)) (by omega) (Page.start_encode (by omega)) rfl
      -- This page holds the items before the next position, and the other pages hold the rest.
      refine ⟨_ :: pages, .more hp rfl hw, ?_, ?_, by omega⟩
      · rw [List.flatMap_cons, hf, ← List.drop_drop, List.take_append_drop]
      · intro h l hl
        rcases List.mem_cons.1 hl with rfl | hl
        · exact nonempty h
        · exact ho hm l hl
    · rw [if_neg hm] at hp
      refine ⟨_, .last hp rfl, ?_, ?_, ?_⟩
      · rw [List.flatMap_singleton, List.take_of_length_le]
        rw [List.length_drop]
        omega
      · intro h l hl
        rw [List.mem_singleton.1 hl]
        exact nonempty h
      · intro h
        rw [List.drop_of_length_le (by omega), List.take_nil]

/-- Listings are complete and exact in any view. -/
theorem paginates_view (hd : d.table.size ≤ Page.lastIndex) (hs : Page.start token = .ok s)
    (view : Route → α) (size : Nat) :
    Paginates (d.page view size) (d.table.routes.map view) (max size 1) token s := by
  have hl : (d.table.routes.map view).length = d.table.size := List.length_map ..
  obtain ⟨pages, hw, hf, ho, he⟩ := walk_of_start hd hs view size
  refine ⟨⟨_, page_eq hd hs view size, rfl, ?_⟩,
    pages, hw, fun _ h => h.unique hw, hf, by rwa [hl], by rwa [hl]⟩
  rw [hl]
  split <;> simp_all

/-- Listings are complete and exact, in both views and with pages of all sizes, from every
    position that a token can tell. A position is a number of 64 bits, and so is the number of
    routes of a table that is held. -/
theorem paginates (d : Directory) (hd : d.table.size ≤ Page.lastIndex) {token : Option String}
    {s : Nat} (hs : Page.start token = .ok s) :
    Paginates d.listEndpoints (d.table.routes.map Route.toEndpoint) (max d.endpointsPerPage 1)
      token s ∧
    Paginates d.searchRoutes (d.table.routes.map Route.toView) (max d.routesPerPage 1) token s :=
  ⟨paginates_view hd hs Route.toEndpoint d.endpointsPerPage,
    paginates_view hd hs Route.toView d.routesPerPage⟩

/-- From the second of three routes: pages without room, which hold an item each, and one page
    with room for all there could be. -/
theorem paginates_from_second :
    let route (name : String) : Route :=
      ⟨name, .chat, ⟨"m", "p", ⟨none, none, []⟩⟩, ⟨.chat, .unsupporting "p" fun _ => true⟩⟩
    let d : Directory := ⟨⟨["a", "b", "c"].map route, by decide⟩, 0, Page.lastIndex⟩
    let token := some "eyJpbmRleCI6MX0="
    Page.start token = .ok 1 ∧
      Paginates d.listEndpoints (d.table.routes.map Route.toEndpoint) 1 token 1 ∧
      Paginates d.searchRoutes (d.table.routes.map Route.toView) Page.lastIndex token 1 := by
  intro route d token
  have hs : Page.start token = .ok 1 := by decide +kernel
  exact ⟨hs, paginates d (by decide) hs⟩

end Directory

end InferenceGateway
