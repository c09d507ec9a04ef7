import StratumServer.HttpApi.Shares

/-!
# Paging through the shares

A client begins at the offset 0 and goes on by the limit as long as a page
says that there are more.  `walk` is such a client, with a bound on the
number of its requests.

`walk_new` is about pages that are cut out of one list: a walk has its end,
and the pages put together are the list.  `paging_complete` is the result for
both routes.
-/

namespace StratumServer

/-! ## The walk -/

section Walk

variable {α : Type}

/-- Requests pages from an offset on, as long as there are more. -/
def walk (get : Int → Except AppError (PaginatedResponse α)) (limit : Int) :
    Nat → Int → Option (List (PaginatedResponse α))
  | 0, _ => none
  | fuel + 1, offset =>
    match get offset with
    | .error _ => none
    | .ok page =>
      if page.hasMore then
        (walk get limit fuel (offset + limit)).map (page :: ·)
      else some [page]

theorem asUsize_natCast (n : Nat) : asUsize n = n := by
  rw [asUsize, if_pos (Int.natCast_nonneg n), Int.toNat_natCast]

/-- The limit of a page is a number of at least one. -/
theorem effectiveLimit_pos (p : PaginationParams) :
    ∃ n : Nat, 1 ≤ n ∧ p.effectiveLimit = n := by
  have hpos : 1 ≤ p.effectiveLimit := by
    unfold PaginationParams.effectiveLimit
    cases p.limit with
    | none => decide
    | some l => exact le_max_left _ _
  exact ⟨p.effectiveLimit.toNat, by omega, (Int.toNat_of_nonneg (by omega)).symm⟩

/-- A page that is cut out of a list, where the offset is in the list. -/
theorem new_eq (all : List α) (limit : Option Int) {n : Nat}
    (hn : (PaginationParams.mk limit none).effectiveLimit = n) (offset : Nat) :
    PaginatedResponse.new all all.length ⟨limit, some offset⟩ =
      { data := (all.drop offset).take n
        total := all.length
        hasMore := decide (offset + n < all.length) } := by
  have hoffset : (PaginationParams.mk limit (some offset)).effectiveOffset =
      offset := by
    simp [PaginationParams.effectiveOffset]
  have hlimit : (PaginationParams.mk limit (some offset)).effectiveLimit = n := hn
  unfold PaginatedResponse.new
  rw [hoffset, hlimit, asUsize_natCast, asUsize_natCast, asUsize_natCast]
  dsimp only
  congr 1
  split
  · rename_i hpast
    rw [List.drop_eq_nil_of_le hpast, List.take_nil]
  · rfl

/-- From any offset in the list a walk comes to its end, and its pages are
the rest of the list. -/
theorem walk_new {get : Int → Except AppError (PaginatedResponse α)}
    {all : List α} {limit : Option Int} {n : Nat} (hpos : 1 ≤ n)
    (hn : (PaginationParams.mk limit none).effectiveLimit = n)
    (hget : ∀ offset : Nat, get offset =
      .ok (.new all all.length ⟨limit, some offset⟩))
    (fuel : Nat) {offset : Nat} (hoffset : offset ≤ all.length)
    (hfuel : all.length < offset + fuel) :
    ∃ pages, walk get n fuel offset = some pages ∧
      pages.flatMap (·.data) = all.drop offset ∧
      ∀ page ∈ pages, page.total = all.length := by
  induction fuel generalizing offset with
  | zero => omega
  | succ fuel ih =>
    rw [walk, hget, new_eq all limit hn]
    dsimp only
    by_cases hmore : offset + n < all.length
    · rw [if_pos (decide_eq_true hmore)]
      obtain ⟨pages, hwalk, hdata, htotal⟩ := ih hmore.le (by omega)
      rw [Int.natCast_add] at hwalk
      refine ⟨_ :: pages, by rw [hwalk, Option.map_some], ?_, ?_⟩
      · rw [List.flatMap_cons, hdata, ← List.drop_drop, List.take_append_drop]
      · intro page hpage
        rcases List.mem_cons.1 hpage with rfl | hpage
        · rfl
        · exact htotal page hpage
    · rw [if_neg (by simpa using hmore)]
      refine ⟨_, rfl, ?_, ?_⟩
      · rw [List.flatMap_cons, List.flatMap_nil, List.append_nil]
        refine List.take_of_length_le ?_
        rw [List.length_drop]
        omega
      · intro page hpage
        rw [List.mem_singleton.1 hpage]

end Walk

/-! ## The result -/

/-- A client of `get` with a limit visits the rows of a table that match, in
the order of `visited`: each of them is there once, and the ids go down.  With
more requests than there are rows it comes to an end, and every page has the
number of these rows as its total. -/
structure Visits {ρ α : Type} (get : Int → Except AppError (PaginatedResponse α))
    (limit : Option Int) (rows : List ρ) (isMatch : ρ → Bool) (id : ρ → Nat)
    (respond : ρ → α) (visited : List ρ) : Prop where
  matching : ∀ r, r ∈ visited ↔ r ∈ rows ∧ isMatch r = true
  descending : visited.Pairwise fun a b => id b < id a
  pages : ∀ fuel, visited.length < fuel → ∃ pages,
    walk get (PaginationParams.mk limit none).effectiveLimit fuel 0 = some pages ∧
      pages.flatMap (·.data) = visited.map respond ∧
      ∀ page ∈ pages, page.total = visited.length

/-- Both routes are of this kind. -/
theorem visits_of_page {ρ α : Type}
    {get : Int → Except AppError (PaginatedResponse α)} {limit : Option Int}
    {rows : List ρ} {isMatch : ρ → Bool} {id : ρ → Nat} {respond : ρ → α}
    (hids : rows.Pairwise fun a b => id a < id b)
    (hget : ∀ offset, get offset = Routes.listPage
      (.ok ((rows.filter isMatch).insertionSort fun a b => id b ≤ id a))
      (.ok (rows.filter isMatch).length) respond ⟨limit, some offset⟩) :
    ∃ visited, Visits get limit rows isMatch id respond visited := by
  refine ⟨(rows.filter isMatch).insertionSort fun a b => id b ≤ id a, ?_, ?_, ?_⟩
  · intro r
    rw [List.mem_insertionSort, List.mem_filter]
  · refine Sql.pairwise_sortDesc_lt ?_
    exact (hids.filter isMatch).imp fun hlt => hlt.ne
  · have hlength := List.length_insertionSort (fun a b => id b ≤ id a)
      (rows.filter isMatch)
    rw [← hlength] at hget
    generalize (rows.filter isMatch).insertionSort (fun a b => id b ≤ id a) =
      visited at hget
    intro fuel hfuel
    obtain ⟨n, hpos, hn⟩ := effectiveLimit_pos ⟨limit, none⟩
    have hpages : ∀ offset : Nat, get offset = .ok (.new (visited.map respond)
        (visited.map respond).length ⟨limit, some offset⟩) := by
      intro offset
      rw [hget, List.length_map]
      rfl
    have hwalk := walk_new hpos hn hpages fuel (Nat.zero_le _) (by
      rw [List.length_map]
      omega)
    rw [List.length_map, List.drop_zero] at hwalk
    rw [hn]
    exact hwalk

/-- For every database, all filters and every limit, a client of either list
visits the rows that match. -/
theorem paging_complete (dates : Dates) (db : Database) (f : ShareFilters)
    (limit : Option Int) :
    (∃ visited, Visits (fun offset => Routes.listShares dates (some db)
        { f with limit, offset := some offset }) limit db.shares.rows
      (ShareRepository.shareMatches dates f db) Share.id ShareResponse.of
      visited) ∧
    ∃ visited, Visits (fun offset => Routes.listShareOutcomes dates (some db)
        { f with limit, offset := some offset }) limit db.shareOutcomes.rows
      (ShareRepository.outcomeMatches dates f) ShareOutcome.id
      ShareOutcomeResponse.of visited := by
  constructor
  · refine visits_of_page db.shares.ids_lt fun offset => ?_
    dsimp only [Routes.listShares]
    rw [ShareRepository.listShares_eq, ShareRepository.countShares_eq]
    rfl
  · refine visits_of_page db.shareOutcomes.ids_lt fun offset => ?_
    dsimp only [Routes.listShareOutcomes]
    rw [ShareRepository.listOutcomes_eq, ShareRepository.countOutcomes_eq]
    rfl

end StratumServer
