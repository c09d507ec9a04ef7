import Mathlib.Algebra.Ring.Int.Defs
import Mathlib.Data.List.Sort
import StratumServer.Lib.Query
import StratumServer.Accounting.Schema

/-!
# Listing and counting shares

The queries behind the lists of the HTTP API.  `list_shares` and
`count_shares` put their `WHERE` clauses together in different orders, so
that the same filter has another parameter number in each.  They join
`share_outcomes` only for the filter by status.

`listShares_eq` and `countShares_eq` say that both go over the same rows,
those for which `shareMatches` holds.  The outcomes have one clause for
both.

The comparison of `created_at` with a text is left open, as `Dates`: it
depends on the time of the insert and on how SQLite compares a text with a
column of this type.
-/

namespace StratumServer

open Sql

/-- The optional filters of a list. -/
structure ShareFilters where
  workerId : Option Int := none
  status : Option String := none
  fromDate : Option String := none
  toDate : Option String := none
  deriving DecidableEq, Repr

/-- The conditions: `worker_id = ?`, `status = ?`, `created_at >= ?` and
`created_at <= ?`. -/
inductive ShareColumn
  | workerId | status | createdFrom | createdTo
  deriving DecidableEq, Repr

/-- A parameter. -/
inductive SqlValue
  | integer (n : Int)
  | text (s : String)
  deriving DecidableEq, Repr

/-- The comparisons of `created_at` with a text, for a share and for an
outcome. -/
structure Dates where
  shareFrom : Share → String → Bool
  shareTo : Share → String → Bool
  outcomeFrom : ShareOutcome → String → Bool
  outcomeTo : ShareOutcome → String → Bool

/-- `as usize` of an `i64`: a negative number wraps around. -/
def asUsize (n : Int) : Nat :=
  if 0 ≤ n then n.toNat else (n + 2 ^ 64).toNat

/-- The offset and the limit, which are applied after the query. -/
def slice {α : Type} (limit offset : Option Int) (rows : List α) : List α :=
  let rows := match offset with
    | some off => if asUsize off ≤ rows.length then rows.drop (asUsize off) else []
    | none => rows
  match limit with
  | some lim => rows.take (asUsize lim)
  | none => rows

namespace ShareRepository

variable (dates : Dates)

/-! ## Shares -/

/-- The clause of `list_shares`, and of both queries for outcomes. -/
def listClause (f : ShareFilters) : Where ShareColumn SqlValue :=
  (((Where.empty.push .workerId (f.workerId.map .integer)).push
    .status (f.status.map .text)).push
    .createdFrom (f.fromDate.map .text)).push
    .createdTo (f.toDate.map .text)

/-- The clause of `count_shares`. -/
def countClause (f : ShareFilters) : Where ShareColumn SqlValue :=
  (((Where.empty.push .workerId (f.workerId.map .integer)).push
    .createdFrom (f.fromDate.map .text)).push
    .createdTo (f.toDate.map .text)).push
    .status (f.status.map .text)

/-- `FROM shares s`, with `LEFT JOIN share_outcomes so ON so.dedupe_key =
s.dedupe_key` if it is asked for. -/
def sharesFrom (join : Bool) (db : Database) : List (Share × Option ShareOutcome) :=
  if join then
    leftJoin (fun s o => o.dedupeKey == s.dedupeKey) db.shares.rows
      db.shareOutcomes.rows
  else db.shares.rows.map fun s => (s, none)

/-- The columns that a condition may name: `so.status` is there only in the
join. -/
def shareColumns (join : Bool) : ShareColumn → Bool
  | .status => join
  | _ => true

/-- The conditions on `s` and `so`.  One on a `NULL` is not true. -/
def shareHolds (row : Share × Option ShareOutcome) : ShareColumn → SqlValue → Bool
  | .workerId, .integer n => (row.1.workerId : Int) == n
  | .status, .text t => row.2.any (·.status.text == t)
  | .createdFrom, .text t => dates.shareFrom row.1 t
  | .createdTo, .text t => dates.shareTo row.1 t
  | _, _ => false

/-- `ShareRepository::list_shares`. -/
def listShares (f : ShareFilters) (limit offset : Option Int) (db : Database) :
    Except Error (List Share) :=
  match (listClause f).select (shareColumns f.status.isSome) (shareHolds dates)
      (sharesFrom f.status.isSome db) with
  | none => .error .sqlite
  | some rows => .ok (slice limit offset
      ((rows.map (·.1)).insertionSort fun a b => b.id ≤ a.id))

/-- `ShareRepository::count_shares`. -/
def countShares (f : ShareFilters) (db : Database) : Except Error Int :=
  match (countClause f).select (shareColumns f.status.isSome) (shareHolds dates)
      (sharesFrom f.status.isSome db) with
  | none => .error .sqlite
  | some rows => .ok rows.length

/-! ## Outcomes -/

/-- The conditions on `so`. -/
def outcomeHolds (o : ShareOutcome) : ShareColumn → SqlValue → Bool
  | .workerId, .integer n => (o.workerId : Int) == n
  | .status, .text t => o.status.text == t
  | .createdFrom, .text t => dates.outcomeFrom o t
  | .createdTo, .text t => dates.outcomeTo o t
  | _, _ => false

/-- `ShareRepository::list_outcomes`. -/
def listOutcomes (f : ShareFilters) (limit offset : Option Int) (db : Database) :
    Except Error (List ShareOutcome) :=
  match (listClause f).select (fun _ => true) (outcomeHolds dates)
      db.shareOutcomes.rows with
  | none => .error .sqlite
  | some rows => .ok (slice limit offset
      (rows.insertionSort fun a b => b.id ≤ a.id))

/-- `ShareRepository::count_outcomes`. -/
def countOutcomes (f : ShareFilters) (db : Database) : Except Error Int :=
  match (listClause f).select (fun _ => true) (outcomeHolds dates)
      db.shareOutcomes.rows with
  | none => .error .sqlite
  | some rows => .ok rows.length

/-! ## The rows that match -/

/-- Whether a share matches the filters: with a status, its outcome has that
status. -/
def shareMatches (f : ShareFilters) (db : Database) (s : Share) : Bool :=
  f.workerId.all ((s.workerId : Int) == ·) &&
    f.status.all (fun t => db.shareOutcomes.rows.any fun o =>
      o.dedupeKey == s.dedupeKey && o.status.text == t) &&
    f.fromDate.all (dates.shareFrom s) && f.toDate.all (dates.shareTo s)

/-- Whether an outcome matches the filters. -/
def outcomeMatches (f : ShareFilters) (o : ShareOutcome) : Bool :=
  f.workerId.all ((o.workerId : Int) == ·) && f.status.all (o.status.text == ·) &&
    f.fromDate.all (dates.outcomeFrom o) && f.toDate.all (dates.outcomeTo o)

variable {dates}

/-- A clause takes the outcome that is found for a share. -/
theorem join_status (db : Database) (s : Share) (t : String) :
    (db.shareOutcomes.rows.find? (·.dedupeKey == s.dedupeKey)).any
        (·.status.text == t) =
      db.shareOutcomes.rows.any fun o =>
        o.dedupeKey == s.dedupeKey && o.status.text == t := by
  rw [Bool.eq_iff_iff, List.any_eq_true, Option.any_eq_true]
  constructor
  · rintro ⟨o, ho, hstatus⟩
    have hkey := List.find?_some ho
    exact ⟨o, List.mem_of_find?_eq_some ho, Bool.and_eq_true_iff.2 ⟨hkey, hstatus⟩⟩
  · rintro ⟨o, ho, hboth⟩
    obtain ⟨hkey, hstatus⟩ := Bool.and_eq_true_iff.1 hboth
    obtain ⟨o', ho'⟩ := Option.isSome_iff_exists.1
      (List.find?_isSome.2 ⟨o, ho, hkey⟩ :
        (db.shareOutcomes.rows.find? (·.dedupeKey == s.dedupeKey)).isSome)
    have hkey' := List.find?_some ho'
    -- The keys of outcomes are unique.
    have hsame : o' = o := db.shareOutcomes.eq_of_key
      (List.mem_of_find?_eq_some ho') ho (congrArg some (eq_of_beq hkey'))
      (congrArg some (eq_of_beq hkey))
    exact ⟨o', ho', hsame ▸ hstatus⟩

/-- The row of the query for a share, with its outcome if the outcomes are
joined. -/
def queryRow (f : ShareFilters) (db : Database) (s : Share) :
    Share × Option ShareOutcome :=
  (s, if f.status.isSome then
    db.shareOutcomes.rows.find? (·.dedupeKey == s.dedupeKey) else none)

/-- Each share is there once. -/
theorem sharesFrom_eq (f : ShareFilters) (db : Database) :
    sharesFrom f.status.isSome db = db.shares.rows.map (queryRow f db) := by
  unfold sharesFrom queryRow
  cases f.status with
  | none => rfl
  | some t =>
    refine leftJoin_eq_map fun s _ => length_filter_le_one ?_
    refine db.shareOutcomes.keys_ne.imp fun {o o'} hne hboth => hne ?_
    refine ⟨s.dedupeKey, ?_, ?_⟩
    · exact congrArg some (eq_of_beq hboth.1)
    · exact congrArg some (eq_of_beq hboth.2)

/-- The filter by status. -/
theorem status_holds (f : ShareFilters) (db : Database) (s : Share) :
    (f.status.map SqlValue.text).all
        (shareHolds dates (queryRow f db s) .status) =
      f.status.all fun t => db.shareOutcomes.rows.any fun o =>
        o.dedupeKey == s.dedupeKey && o.status.text == t := by
  unfold queryRow
  cases f.status with
  | none => rfl
  | some t => exact join_status db s t

theorem listClause_accepts (f : ShareFilters) (db : Database) (s : Share) :
    (listClause f).accepts (shareHolds dates) (queryRow f db s) =
      shareMatches dates f db s := by
  rw [listClause, Where.accepts_push, Where.accepts_push, Where.accepts_push,
    Where.accepts_push, status_holds, Option.all_map, Option.all_map,
    Option.all_map]
  rfl

/-- The clause of `count_shares` says the same in another order. -/
theorem countClause_accepts (f : ShareFilters) (db : Database) (s : Share) :
    (countClause f).accepts (shareHolds dates) (queryRow f db s) =
      shareMatches dates f db s := by
  rw [← listClause_accepts, listClause, countClause]
  simp only [Where.accepts_push]
  ac_rfl

theorem listClause_columns (f : ShareFilters) :
    (listClause f).conditions.all
      (fun c => shareColumns f.status.isSome c.column) = true := by
  rw [listClause, Where.columns_push, Where.columns_push, Where.columns_push,
    Where.columns_push]
  cases f.status <;> simp [shareColumns, Where.empty]

theorem countClause_columns (f : ShareFilters) :
    (countClause f).conditions.all
      (fun c => shareColumns f.status.isSome c.column) = true := by
  rw [countClause, Where.columns_push, Where.columns_push, Where.columns_push,
    Where.columns_push]
  cases f.status <;> simp [shareColumns, Where.empty]

/-- A clause that says this gives the rows of the shares that match. -/
theorem select_shares {f : ShareFilters} {db : Database}
    {w : Where ShareColumn SqlValue}
    (hcolumns : w.conditions.all
      (fun c => shareColumns f.status.isSome c.column) = true)
    (haccepts : ∀ s, w.accepts (shareHolds dates) (queryRow f db s) =
      shareMatches dates f db s) :
    w.select (shareColumns f.status.isSome) (shareHolds dates)
        (sharesFrom f.status.isSome db) =
      some ((db.shares.rows.filter (shareMatches dates f db)).map
        (queryRow f db)) := by
  rw [Where.select_eq hcolumns, sharesFrom_eq, List.filter_map]
  congr 3
  funext s
  exact haccepts s

/-- `list_shares` gives the shares that match, the newest first. -/
theorem listShares_eq (f : ShareFilters) (limit offset : Option Int)
    (db : Database) : listShares dates f limit offset db =
      .ok (slice limit offset ((db.shares.rows.filter
        (shareMatches dates f db)).insertionSort fun a b => b.id ≤ a.id)) := by
  have hshares : ∀ shares : List Share,
      (shares.map (queryRow f db)).map (·.1) = shares := by
    intro shares
    rw [List.map_map]
    exact List.map_id shares
  unfold listShares
  rw [select_shares (listClause_columns f) (listClause_accepts f db)]
  dsimp only
  rw [hshares]

/-- `count_shares` gives their number. -/
theorem countShares_eq (f : ShareFilters) (db : Database) :
    countShares dates f db =
      .ok (db.shares.rows.filter (shareMatches dates f db)).length := by
  unfold countShares
  rw [select_shares (countClause_columns f) (countClause_accepts f db)]
  dsimp only
  rw [List.length_map]

/-- The clause for outcomes. -/
theorem listClause_outcome (f : ShareFilters) (o : ShareOutcome) :
    (listClause f).accepts (outcomeHolds dates) o = outcomeMatches dates f o := by
  rw [listClause, Where.accepts_push, Where.accepts_push, Where.accepts_push,
    Where.accepts_push, Option.all_map, Option.all_map, Option.all_map,
    Option.all_map]
  rfl

theorem select_outcomes (f : ShareFilters) (db : Database) :
    (listClause f).select (fun _ => true) (outcomeHolds dates)
        db.shareOutcomes.rows =
      some (db.shareOutcomes.rows.filter (outcomeMatches dates f)) := by
  rw [Where.select_eq (List.all_eq_true.2 fun _ _ => rfl)]
  congr 2
  funext o
  exact listClause_outcome f o

theorem listOutcomes_eq (f : ShareFilters) (limit offset : Option Int)
    (db : Database) : listOutcomes dates f limit offset db =
      .ok (slice limit offset ((db.shareOutcomes.rows.filter
        (outcomeMatches dates f)).insertionSort fun a b => b.id ≤ a.id)) := by
  rw [listOutcomes, select_outcomes]

theorem countOutcomes_eq (f : ShareFilters) (db : Database) :
    countOutcomes dates f db =
      .ok (db.shareOutcomes.rows.filter (outcomeMatches dates f)).length := by
  rw [countOutcomes, select_outcomes]

end ShareRepository

end StratumServer
