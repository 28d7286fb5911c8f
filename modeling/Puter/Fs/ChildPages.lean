/-
Module: Puter.Fs.ChildPages
Purpose: The children of a directory page by page (FSEntryStore.listChildrenPage). A cursor holds the sort key of the
  last row as it is computed from the row again, and its id; the next page is what the database finds after it. The
  pages give every child once, unless the limit is below one or a row whose flag is NULL has to be passed.
Trusted boundary: a cursor that no page has handed out; the order that the database gives to names and to NULL
Main exports: ChildRow, childPages_lossless_iff
-/
import Puter.Core.Pagination
import Puter.Library.KeysetPages

namespace Puter

open Pagination KeysetPages

/-- The columns of a row that a listing by pages reads. -/
structure ChildRow where
  id : ℕ
  parentUid : Text
  name : Text
  modified : Option ℤ
  size : Option ℤ
  isDir : Option Bool
deriving DecidableEq, Repr

inductive SortField where
  | name
  | modified
  | type
  | size
deriving DecidableEq, Repr

inductive SortOrder where
  | asc
  | desc
deriving DecidableEq, Repr

def SortField.text : SortField → Text
  | .name => ['n', 'a', 'm', 'e']
  | .modified => ['m', 'o', 'd', 'i', 'f', 'i', 'e', 'd']
  | .type => ['t', 'y', 'p', 'e']
  | .size => ['s', 'i', 'z', 'e']

def SortOrder.text : SortOrder → Text
  | .asc => ['a', 's', 'c']
  | .desc => ['d', 'e', 's', 'c']

/-- What the three databases do differently: how names are compared, whether NULL sorts before all values, and whether
    a flag reads as a truth value or as a number. -/
structure RowOrder (κ : Type) where
  collate : Text → κ
  nullsLow : Bool
  booleanFlags : Bool

/-- `cmp` -/
def SortOrder.precedes {α : Type} [LT α] : SortOrder → α → α → Prop
  | .asc, one, other => one < other
  | .desc, one, other => other < one

instance {α : Type} [LT α] [DecidableRel (α := α) (· < ·)] (dir : SortOrder) : DecidableRel (dir.precedes (α := α)) :=
  fun one other =>
    match dir with
    | .asc => inferInstanceAs (Decidable (one < other))
    | .desc => inferInstanceAs (Decidable (other < one))

section Store

variable {κ : Type} [LinearOrder κ] (db : RowOrder κ)

/-- `sortExpr`, of a row; none is NULL. -/
def sortExpr (field : SortField) (row : ChildRow) : Option (κ ⊕ₗ ℤ) :=
  match field with
  | .modified => some (Sum.inrₗ (row.modified.getD 0))
  | .size => some (Sum.inrₗ (row.size.getD (-1)))
  | .type => row.isDir.map fun flag => Sum.inrₗ (if flag then 1 else 0)
  | .name => some (Sum.inlₗ (db.collate row.name))

def flagValue (flag : Bool) : JsonText.Value := if db.booleanFlags then .bool flag else .number (if flag then 1 else 0)

/-- `v`, as it is computed from the last row of a page. -/
def cursorValue (field : SortField) (row : ChildRow) : JsonText.Value :=
  match field with
  | .modified => .number (row.modified.getD 0)
  | .size => .number (row.size.getD (-1))
  | .type => row.isDir.elim .null (flagValue db)
  | .name => .text row.name

def seekKey (field : SortField) (v : JsonText.Value) : Option (Option (κ ⊕ₗ ℤ)) :=
  match field, v with
  | _, .null => some none
  | .name, .text name => some (some (Sum.inlₗ (db.collate name)))
  | .modified, .number n => some (some (Sum.inrₗ n))
  | .size, .number n => some (some (Sum.inrₗ n))
  | .type, .number n => some (some (Sum.inrₗ n))
  | .type, .bool flag => some (some (Sum.inrₗ (if flag then 1 else 0)))
  | _, _ => none

def RowOrder.nullsFirst (dir : SortOrder) : Bool :=
  match dir with
  | .asc => db.nullsLow
  | .desc => !db.nullsLow

/-- The order of sort keys, with NULL at one end of it. -/
def keyBefore (dir : SortOrder) : Option (κ ⊕ₗ ℤ) → Option (κ ⊕ₗ ℤ) → Prop
  | some one, some other => dir.precedes one other
  | none, some _ => db.nullsFirst dir = true
  | some _, none => db.nullsFirst dir = false
  | none, none => False

instance (dir : SortOrder) : DecidableRel (keyBefore db dir) := fun one other =>
  match one, other with
  | some one, some other => inferInstanceAs (Decidable (dir.precedes one other))
  | none, some _ => inferInstanceAs (Decidable (db.nullsFirst dir = true))
  | some _, none => inferInstanceAs (Decidable (db.nullsFirst dir = false))
  | none, none => inferInstanceAs (Decidable False)

/-- `ORDER BY` the sort expression and the id. -/
abbrev rankBefore (dir : SortOrder) : Option (κ ⊕ₗ ℤ) × ℤ → Option (κ ⊕ₗ ℤ) × ℤ → Prop :=
  Prod.Lex (keyBefore db dir) dir.precedes

def rowRank (field : SortField) (row : ChildRow) : Option (κ ⊕ₗ ℤ) × ℤ := (sortExpr db field row, row.id)

def seekPasses (field : SortField) (dir : SortOrder) (position : Option (Option (κ ⊕ₗ ℤ) × ℤ)) (row : ChildRow) : Bool :=
  match position with
  | none => true
  | some (v, id) =>
      match sortExpr db field row, v with
      | some key, some value => decide (dir.precedes value key) || (decide (key = value) && decide (dir.precedes id row.id))
      | _, _ => false

def childrenAfter (rows : List ChildRow) (parentUid : Text) (field : SortField) (dir : SortOrder)
    (position : Option (Option (κ ⊕ₗ ℤ) × ℤ)) : List ChildRow :=
  ordered (rankBefore db dir) (rowRank db field) (rows.filter fun row =>
    decide (row.parentUid = parentUid) && seekPasses db field dir position row)

structure ChildPageOpts where
  limit : Option ℚ
  cursor : Option GivenCursor
  sortBy : Option SortField
  sortOrder : Option SortOrder

inductive PageFailure where
  | http (error : HttpError)
  | typeError
  | foreignCursor

structure ChildPage where
  entries : List ChildRow
  cursor : Option Text

def truthyPayload : JsonText.Value → Bool
  | .null => false
  | .bool flag => flag
  | .number n => decide (n ≠ 0)
  | .text text => decide (text ≠ [])
  | .list _ | .map _ => true

def payloadField (name : Text) : JsonText.Value → Option JsonText.Value
  | .map fields => (fields.find? (·.1 = name)).map Prod.snd
  | _ => none

def pinnedSort (requested : Option Text) (pinned : Option JsonText.Value) (otherwise : Text) : JsonText.Value :=
  match requested, pinned with
  | some text, _ => .text text
  | none, none | none, some .null => .text otherwise
  | none, some value => value

def isText (text : Text) : JsonText.Value → Bool
  | .text other => decide (other = text)
  | _ => false

def sortFieldOf (sortBy : JsonText.Value) : SortField :=
  if isText SortField.modified.text sortBy then .modified
  else if isText SortField.size.text sortBy then .size
  else if isText SortField.type.text sortBy then .type
  else .name

def sortOrderOf (sortOrder : JsonText.Value) : SortOrder :=
  if isText SortOrder.desc.text sortOrder then .desc else .asc

def mismatched (requested : Option Text) (pinned : Option JsonText.Value) : Bool :=
  requested.any fun text => !pinned.any (isText text)

def sortMismatch : HttpError := ⟨400, "cursor does not match requested sort".toList, "bad_request".toList⟩

def seekPosition (field : SortField) (payload : JsonText.Value) : Option (Option (κ ⊕ₗ ℤ) × ℤ) :=
  match payloadField ['v'] payload, payloadField ['i', 'd'] payload with
  | some v, some (.number id) => (seekKey db field v).map fun key => (key, id)
  | _, _ => none

def childCursor (sortBy sortOrder : JsonText.Value) (last : ChildRow) : CursorPayload :=
  [(['v'], cursorValue db (sortFieldOf sortBy) last), (['i', 'd'], .number last.id), (['s'], sortBy), (['o'], sortOrder)]

def childPageAfter (rows : List ChildRow) (parentUid : Text) (sortBy sortOrder : JsonText.Value) (limit : ℕ)
    (position : Option (Option (κ ⊕ₗ ℤ) × ℤ)) : Except PageFailure ChildPage :=
  let found := (childrenAfter db rows parentUid (sortFieldOf sortBy) (sortOrderOf sortOrder) position).take (limit + 1)
  if limit < found.length then
    let pageRows := found.take limit
    match pageRows.getLast? with
    | none => .error .typeError
    | some last => .ok ⟨pageRows, encodeCursor (some (childCursor db sortBy sortOrder last))⟩
  else .ok ⟨found, none⟩

def maxChildLimit : ℕ := 10000

def defaultChildLimit : ℕ := 1000

def listChildrenPage (rows : List ChildRow) (parentUid : Text) (opts : ChildPageOpts) : Except PageFailure ChildPage :=
  match decodeCursor opts.cursor "cursor".toList with
  | .error error => .error (.http error)
  | .ok decoded =>
      let payload := decoded.filter truthyPayload
      let pinnedBy := payload.bind (payloadField ['s'])
      let pinnedOrder := payload.bind (payloadField ['o'])
      if payload.isSome && (mismatched (opts.sortBy.map (·.text)) pinnedBy ||
          mismatched (opts.sortOrder.map (·.text)) pinnedOrder) then .error (.http sortMismatch)
      else
        let sortBy := pinnedSort (opts.sortBy.map (·.text)) pinnedBy SortField.name.text
        let sortOrder := pinnedSort (opts.sortOrder.map (·.text)) pinnedOrder SortOrder.asc.text
        match normalizeLimit opts.limit (some maxChildLimit) "limit".toList with
        | .error error => .error (.http error)
        | .ok limit =>
            let page := childPageAfter db rows parentUid sortBy sortOrder (limit.getD defaultChildLimit)
            match payload with
            | none => page none
            | some payload =>
                match seekPosition db (sortFieldOf sortBy) payload with
                | none => .error .foreignCursor
                | some position => page (some position)

inductive ChildPagesFailure where
  | unfinished
  | failed (failure : PageFailure)

def followChildPages (rows : List ChildRow) (parentUid : Text) : ℕ → ChildPageOpts →
    Except ChildPagesFailure (List (List ChildRow))
  | 0, _ => .error .unfinished
  | calls + 1, opts =>
      match listChildrenPage db rows parentUid opts with
      | .error failure => .error (.failed failure)
      | .ok page =>
          match page.cursor with
          | none => .ok [page.entries]
          | some cursor =>
              (followChildPages rows parentUid calls { opts with cursor := some (.text cursor) }).map (page.entries :: ·)

def orderedChildren (rows : List ChildRow) (parentUid : Text) (field : SortField) (dir : SortOrder) : List ChildRow :=
  childrenAfter db rows parentUid field dir none

end Store

instance precedes_total {α : Type} [LinearOrder α] (dir : SortOrder) : IsStrictTotalOrder α dir.precedes := by
  cases dir with
  | asc => exact inferInstanceAs (IsStrictTotalOrder α (· < ·))
  | desc => exact inferInstanceAs (IsStrictTotalOrder α (· > ·))

section Rows

variable {κ : Type} [LinearOrder κ] {db : RowOrder κ}

instance keyBefore_total (dir : SortOrder) : IsStrictTotalOrder (Option (κ ⊕ₗ ℤ)) (keyBefore db dir) where
  irrefl key before := by
    cases key with
    | none => exact before
    | some key => exact irrefl (r := dir.precedes) key before
  trans one other third before before' := by
    cases one with
    | none => cases other with
      | none => exact absurd before not_false
      | some other => cases third with
        | none => cases (show db.nullsFirst dir = true from before).symm.trans before'
        | some third => exact before
    | some one => cases other with
      | none => cases third with
        | none => exact absurd before' not_false
        | some third => cases (show db.nullsFirst dir = true from before').symm.trans before
      | some other => cases third with
        | none => exact before'
        | some third => exact IsTrans.trans (r := dir.precedes) one other third before before'
  trichotomous one other notBefore notAfter := by
    cases one with
    | none => cases other with
      | none => rfl
      | some other => cases first : db.nullsFirst dir with
        | true => exact absurd first notBefore
        | false => exact absurd first notAfter
    | some one => cases other with
      | none => cases first : db.nullsFirst dir with
        | true => exact absurd first notAfter
        | false => exact absurd first notBefore
      | some other =>
          exact congrArg some (@Std.Trichotomous.trichotomous _ (dir.precedes (α := κ ⊕ₗ ℤ)) _ one other notBefore notAfter)

instance rankBefore_total (dir : SortOrder) : IsStrictTotalOrder (Option (κ ⊕ₗ ℤ) × ℤ) (rankBefore db dir) where

omit [LinearOrder κ] in
theorem seekKey_cursorValue (field : SortField) (row : ChildRow) :
    seekKey db field (cursorValue db field row) = some (sortExpr db field row) := by
  cases field with
  | name | modified | size => rfl
  | type =>
      cases flag : row.isDir with
      | none => simp only [cursorValue, sortExpr, flag, Option.elim_none, Option.map_none, seekKey]
      | some flag' =>
          simp only [cursorValue, sortExpr, flag, Option.elim_some, Option.map_some, flagValue]
          cases db.booleanFlags <;> rfl

theorem seekPasses_iff {field : SortField} {dir : SortOrder} {v : Option (κ ⊕ₗ ℤ)} {id : ℤ} {row : ChildRow} :
    seekPasses db field dir (some (v, id)) row = true ↔
      v.isSome ∧ (sortExpr db field row).isSome ∧ rankBefore db dir (v, id) (rowRank db field row) := by
  simp only [seekPasses, rowRank, Prod.lex_def]
  cases sortExpr db field row with
  | none => simp
  | some key =>
      cases v with
      | none => simp
      | some value => simp [keyBefore, @eq_comm _ value key]

variable {rows : List ChildRow} {parentUid : Text} {field : SortField} {dir : SortOrder}

omit [LinearOrder κ] in
theorem distinct_ranks (ids : (rows.map ChildRow.id).Nodup) (p : ChildRow → Bool) :
    ((rows.filter p).map (rowRank db field)).Nodup := by
  have some : ((rows.filter p).map ChildRow.id).Nodup := ids.sublist (List.filter_sublist.map _)
  rw [List.nodup_map_iff_inj_on some.of_map]
  intro one first other second same
  have sameId : one.id = other.id := Nat.cast_injective (congrArg Prod.snd same)
  exact List.inj_on_of_nodup_map some first second sameId

theorem filter_children : rows.filter (fun row => decide (row.parentUid = parentUid) && seekPasses db field dir none row) =
    rows.filter fun row => decide (row.parentUid = parentUid) := by
  apply List.filter_congr
  intro row _
  exact Bool.and_true _

theorem childrenAfter_eq (ids : (rows.map ChildRow.id).Nodup) (position : Option (Option (κ ⊕ₗ ℤ) × ℤ)) :
    childrenAfter db rows parentUid field dir position =
      (orderedChildren db rows parentUid field dir).filter (seekPasses db field dir position) := by
  rw [orderedChildren, childrenAfter, childrenAfter, filter_children, ← ordered_filter _ _ (distinct_ranks ids _), List.filter_filter]
  congr 1
  apply List.filter_congr
  intro row _
  exact Bool.and_comm _ _

theorem orderedChildren_sorted (ids : (rows.map ChildRow.id).Nodup) :
    (orderedChildren db rows parentUid field dir).Pairwise fun one other =>
      rankBefore db dir (rowRank db field one) (rowRank db field other) :=
  pairwise_ordered _ _ (distinct_ranks ids _)

theorem childrenAfter_next (ids : (rows.map ChildRow.id).Nodup) {position : Option (Option (κ ⊕ₗ ℤ) × ℤ)} {n : ℕ}
    {last : ChildRow} (isLast : ((childrenAfter db rows parentUid field dir position).take n).getLast? = some last)
    (notNull : (sortExpr db field last).isSome) :
    childrenAfter db rows parentUid field dir (some (sortExpr db field last, last.id)) =
      ((childrenAfter db rows parentUid field dir position).drop n).filter fun row => (sortExpr db field row).isSome := by
  have sorted : (childrenAfter db rows parentUid field dir position).Pairwise fun one other =>
      rankBefore db dir (rowRank db field one) (rowRank db field other) := by
    rw [childrenAfter_eq ids]
    exact (orderedChildren_sorted ids).filter _
  have found : last ∈ childrenAfter db rows parentUid field dir position :=
    List.mem_of_mem_take (List.mem_of_getLast? isLast)
  rw [childrenAfter_eq ids, List.mem_filter] at found
  rw [← @filter_after_last _ (fun one other => rankBefore db dir (rowRank db field one) (rowRank db field other))
    _ _ _ _ _ sorted isLast, childrenAfter_eq ids, childrenAfter_eq ids, List.filter_filter, List.filter_filter]
  apply List.filter_congr
  intro row _
  -- What is after the last row is after the position too.
  rw [Bool.eq_iff_iff, seekPasses_iff]
  simp only [Bool.and_eq_true, decide_eq_true_eq]
  constructor
  · rintro ⟨-, some, later⟩
    refine ⟨⟨some, later⟩, ?_⟩
    cases position with
    | none => rfl
    | some position =>
        obtain ⟨valued, -, earlier⟩ := seekPasses_iff.mp found.2
        exact seekPasses_iff.mpr ⟨valued, some, IsTrans.trans _ _ _ earlier later⟩
  · rintro ⟨⟨some, later⟩, -⟩
    exact ⟨notNull, some, later⟩

theorem childrenAfter_null (ids : (rows.map ChildRow.id).Nodup) (id : ℤ) :
    childrenAfter db rows parentUid field dir (some (none, id)) = [] := by
  rw [childrenAfter_eq ids, List.filter_eq_nil_iff]
  intro row _ passes
  exact Bool.false_ne_true (seekPasses_iff.mp passes).1

end Rows

section Pages

variable {κ : Type} [LinearOrder κ] {db : RowOrder κ} {rows : List ChildRow} {parentUid : Text}
  {sortBy sortOrder : JsonText.Value} {limit : ℕ} {position : Option (Option (κ ⊕ₗ ℤ) × ℤ)}

theorem childPageAfter_whole
    (fits : (childrenAfter db rows parentUid (sortFieldOf sortBy) (sortOrderOf sortOrder) position).length ≤ limit) :
    childPageAfter db rows parentUid sortBy sortOrder limit position =
      .ok ⟨childrenAfter db rows parentUid (sortFieldOf sortBy) (sortOrderOf sortOrder) position, none⟩ := by
  have whole : (childrenAfter db rows parentUid (sortFieldOf sortBy) (sortOrderOf sortOrder) position).take (limit + 1) =
      childrenAfter db rows parentUid (sortFieldOf sortBy) (sortOrderOf sortOrder) position :=
    List.take_of_length_le (fits.trans (Nat.le_succ _))
  simp only [childPageAfter, whole, if_neg (not_lt.mpr fits)]

theorem childPageAfter_more (positive : 0 < limit)
    (more : limit < (childrenAfter db rows parentUid (sortFieldOf sortBy) (sortOrderOf sortOrder) position).length) :
    ∃ last cursor, ((childrenAfter db rows parentUid (sortFieldOf sortBy) (sortOrderOf sortOrder) position).take
        limit).getLast? = some last ∧
      encodeCursor (some (childCursor db sortBy sortOrder last)) = some cursor ∧
      childPageAfter db rows parentUid sortBy sortOrder limit position =
        .ok ⟨(childrenAfter db rows parentUid (sortFieldOf sortBy) (sortOrderOf sortOrder) position).take limit,
          some cursor⟩ := by
  simp only [childPageAfter]
  generalize childrenAfter db rows parentUid (sortFieldOf sortBy) (sortOrderOf sortOrder) position = found at more ⊢
  have nonempty : found.take limit ≠ [] := by
    rw [ne_eq, List.take_eq_nil_iff, not_or, ← List.length_eq_zero_iff]
    omega
  have isLast := List.getLast?_eq_some_getLast nonempty
  have firstOnes : (found.take (limit + 1)).take limit = found.take limit := by
    rw [List.take_take, min_eq_left (Nat.le_succ _)]
  obtain ⟨cursor, encoded⟩ := @encodeCursor_isSome (childCursor db sortBy sortOrder _) (List.cons_ne_nil _ _)
  refine ⟨_, cursor, isLast, encoded, ?_⟩
  rw [if_pos (by rw [List.length_take]; omega), firstOnes, isLast]
  simp only [encoded]

theorem childPageAfter_empty
    (more : childrenAfter db rows parentUid (sortFieldOf sortBy) (sortOrderOf sortOrder) position ≠ []) :
    childPageAfter db rows parentUid sortBy sortOrder 0 position = .error .typeError := by
  have some := List.length_pos_of_ne_nil more
  simp only [childPageAfter, List.take_zero, List.getLast?_nil]
  rw [if_pos (by rw [List.length_take]; omega)]

theorem pinnedSort_none (requested : Option Text) (otherwise : Text) :
    pinnedSort requested none otherwise = .text (requested.getD otherwise) := by
  cases requested <;> rfl

theorem pinnedSort_again (requested : Option Text) (otherwise : Text) :
    pinnedSort requested (some (.text (requested.getD otherwise))) otherwise = .text (requested.getD otherwise) := by
  cases requested <;> rfl

theorem mismatched_again (requested : Option Text) (otherwise : Text) :
    mismatched requested (some (.text (requested.getD otherwise))) = false := by
  cases requested with
  | none => rfl
  | some text => simp [mismatched, isText]

def askedSortBy (opts : ChildPageOpts) : JsonText.Value := .text ((opts.sortBy.map (·.text)).getD SortField.name.text)

def askedSortOrder (opts : ChildPageOpts) : JsonText.Value := .text ((opts.sortOrder.map (·.text)).getD SortOrder.asc.text)

theorem sortFieldOf_asked (opts : ChildPageOpts) : sortFieldOf (askedSortBy opts) = opts.sortBy.getD .name := by
  unfold askedSortBy
  cases opts.sortBy with
  | none => decide
  | some field => cases field <;> decide

theorem sortOrderOf_asked (opts : ChildPageOpts) : sortOrderOf (askedSortOrder opts) = opts.sortOrder.getD .asc := by
  unfold askedSortOrder
  cases opts.sortOrder with
  | none => decide
  | some order => cases order <;> decide

def pageLimit (opts : ChildPageOpts) : ℕ :=
  (opts.limit.map fun limit => min ⌊limit⌋.toNat maxChildLimit).getD defaultChildLimit

theorem normalizeLimit_positive {opts : ChildPageOpts} (positive : ∀ limit ∈ opts.limit, 0 < limit) (label : Text) :
    Pagination.normalizeLimit opts.limit (some maxChildLimit) label =
      .ok (opts.limit.map fun limit => min ⌊limit⌋.toNat maxChildLimit) := by
  cases given : opts.limit with
  | none => rfl
  | some limit =>
      simp only [Pagination.normalizeLimit, if_neg (not_le.mpr (positive limit given)), Option.elim_some, Option.map_some,
        min_comm]

theorem listChildrenPage_first {opts : ChildPageOpts} (noCursor : opts.cursor = none)
    (positive : ∀ limit ∈ opts.limit, 0 < limit) :
    listChildrenPage db rows parentUid opts =
      childPageAfter db rows parentUid (askedSortBy opts) (askedSortOrder opts) (pageLimit opts) none := by
  simp only [listChildrenPage, noCursor, decodeCursor, Option.filter_none, Option.bind_none, Option.isSome_none,
    Bool.false_and, Bool.false_eq_true, if_false, pinnedSort_none, normalizeLimit_positive positive]
  rfl

theorem listChildrenPage_next {opts : ChildPageOpts} (positive : ∀ limit ∈ opts.limit, 0 < limit) {last : ChildRow}
    {cursor : Text} (encoded : encodeCursor (some (childCursor db (askedSortBy opts) (askedSortOrder opts) last)) = some cursor) :
    listChildrenPage db rows parentUid { opts with cursor := some (.text cursor) } =
      childPageAfter db rows parentUid (askedSortBy opts) (askedSortOrder opts) (pageLimit opts)
        (some (sortExpr db (sortFieldOf (askedSortBy opts)) last, last.id)) := by
  have pinnedBy : payloadField ['s'] (.map (childCursor db (askedSortBy opts) (askedSortOrder opts) last)) =
      some (askedSortBy opts) := rfl
  have pinnedOrder : payloadField ['o'] (.map (childCursor db (askedSortBy opts) (askedSortOrder opts) last)) =
      some (askedSortOrder opts) := rfl
  have place : seekPosition db (sortFieldOf (askedSortBy opts))
      (.map (childCursor db (askedSortBy opts) (askedSortOrder opts) last)) =
      some (sortExpr db (sortFieldOf (askedSortBy opts)) last, (last.id : ℤ)) := by
    have read : seekPosition db (sortFieldOf (askedSortBy opts))
        (.map (childCursor db (askedSortBy opts) (askedSortOrder opts) last)) =
        (seekKey db (sortFieldOf (askedSortBy opts)) (cursorValue db (sortFieldOf (askedSortBy opts)) last)).map
          fun key => (key, (last.id : ℤ)) := rfl
    rw [read, seekKey_cursorValue, Option.map_some]
  have sameBy : pinnedSort (opts.sortBy.map (·.text)) (some (askedSortBy opts)) SortField.name.text = askedSortBy opts :=
    pinnedSort_again _ _
  have sameOrder : pinnedSort (opts.sortOrder.map (·.text)) (some (askedSortOrder opts)) SortOrder.asc.text =
      askedSortOrder opts := pinnedSort_again _ _
  have noClash : mismatched (opts.sortBy.map (·.text)) (some (askedSortBy opts)) = false := mismatched_again _ _
  have noClash' : mismatched (opts.sortOrder.map (·.text)) (some (askedSortOrder opts)) = false := mismatched_again _ _
  simp only [listChildrenPage, decodeCursor_encodeCursor encoded, Option.filter_some, truthyPayload, if_true,
    Option.bind_some, pinnedBy, pinnedOrder, noClash, noClash', Option.isSome_some, Bool.or_false, Bool.and_false,
    Bool.false_eq_true, if_false, sameBy, sameOrder, normalizeLimit_positive positive, place]
  rfl

theorem followChildPages_next (ids : (rows.map ChildRow.id).Nodup) {opts : ChildPageOpts}
    (positive : ∀ limit ∈ opts.limit, 0 < limit) (atLeastOne : 0 < pageLimit opts) {calls : ℕ} {last : ChildRow}
    {cursor : Text} (encoded : encodeCursor (some (childCursor db (askedSortBy opts) (askedSortOrder opts) last)) = some cursor)
    (enough : (childrenAfter db rows parentUid (sortFieldOf (askedSortBy opts)) (sortOrderOf (askedSortOrder opts))
      (some (sortExpr db (sortFieldOf (askedSortBy opts)) last, last.id))).length < calls) :
    ∃ pages, followChildPages db rows parentUid calls { opts with cursor := some (.text cursor) } = .ok pages ∧
      pages.flatten = childrenAfter db rows parentUid (sortFieldOf (askedSortBy opts)) (sortOrderOf (askedSortOrder opts))
        (some (sortExpr db (sortFieldOf (askedSortBy opts)) last, last.id)) := by
  induction calls generalizing last cursor with
  | zero => omega
  | succ calls ih =>
      simp only [followChildPages, listChildrenPage_next positive encoded]
      rcases le_or_gt (childrenAfter db rows parentUid (sortFieldOf (askedSortBy opts)) (sortOrderOf (askedSortOrder opts))
        (some (sortExpr db (sortFieldOf (askedSortBy opts)) last, last.id))).length (pageLimit opts) with fits | more
      · rw [childPageAfter_whole fits]
        exact ⟨[_], rfl, List.flatten_singleton⟩
      · obtain ⟨next, nextCursor, isNext, encodedNext, page⟩ := childPageAfter_more atLeastOne more
        -- Only rows without NULL are found, so the rest of them is what is left.
        have allKeyed : ∀ row ∈ childrenAfter db rows parentUid (sortFieldOf (askedSortBy opts))
            (sortOrderOf (askedSortOrder opts)) (some (sortExpr db (sortFieldOf (askedSortBy opts)) last, last.id)),
            (sortExpr db (sortFieldOf (askedSortBy opts)) row).isSome = true := by
          intro row member
          rw [childrenAfter_eq ids] at member
          exact (seekPasses_iff.mp (List.mem_filter.mp member).2).2.1
        have rest := childrenAfter_next ids isNext (allKeyed next (List.mem_of_mem_take (List.mem_of_getLast? isNext)))
        rw [List.filter_eq_self.mpr fun row member => allKeyed row (List.mem_of_mem_drop member)] at rest
        obtain ⟨pages, follows, listed⟩ := ih encodedNext (by
          rw [rest, List.length_drop]
          omega)
        rw [page]
        simp only [follows, Except.map]
        exact ⟨_ :: pages, rfl, by rw [List.flatten_cons, listed, rest, List.take_append_drop]⟩

theorem length_childrenAfter_le (field : SortField) (dir : SortOrder)
    (position : Option (Option (κ ⊕ₗ ℤ) × ℤ)) : (childrenAfter db rows parentUid field dir position).length ≤ rows.length := by
  rw [childrenAfter, length_ordered]
  exact List.length_filter_le _ _

theorem followChildPages_split (ids : (rows.map ChildRow.id).Nodup) {opts : ChildPageOpts} (noCursor : opts.cursor = none)
    (positive : ∀ limit ∈ opts.limit, 0 < limit) (atLeastOne : 0 < pageLimit opts)
    (more : pageLimit opts < (orderedChildren db rows parentUid (sortFieldOf (askedSortBy opts))
      (sortOrderOf (askedSortOrder opts))).length) :
    ∃ last pages, ((orderedChildren db rows parentUid (sortFieldOf (askedSortBy opts))
        (sortOrderOf (askedSortOrder opts))).take (pageLimit opts)).getLast? = some last ∧
      followChildPages db rows parentUid (rows.length + 2) opts = .ok pages ∧
      pages.flatten = (orderedChildren db rows parentUid (sortFieldOf (askedSortBy opts))
          (sortOrderOf (askedSortOrder opts))).take (pageLimit opts) ++
        if (sortExpr db (sortFieldOf (askedSortBy opts)) last).isSome then
          ((orderedChildren db rows parentUid (sortFieldOf (askedSortBy opts)) (sortOrderOf (askedSortOrder opts))).drop
            (pageLimit opts)).filter fun row => (sortExpr db (sortFieldOf (askedSortBy opts)) row).isSome
        else [] := by
  obtain ⟨last, cursor, isLast, encoded, page⟩ := childPageAfter_more atLeastOne more
  obtain ⟨pages, follows, listed⟩ := @followChildPages_next _ _ db rows parentUid ids opts positive atLeastOne
    (rows.length + 1) last cursor encoded (Nat.lt_succ_of_le (length_childrenAfter_le _ _ _))
  refine ⟨last, ((orderedChildren db rows parentUid (sortFieldOf (askedSortBy opts))
    (sortOrderOf (askedSortOrder opts))).take (pageLimit opts)) :: pages, isLast, ?_, ?_⟩
  · rw [followChildPages, listChildrenPage_first noCursor positive, page]
    simp only [follows, Except.map]
    rfl
  · rw [List.flatten_cons, listed]
    congr 1
    cases key : sortExpr db (sortFieldOf (askedSortBy opts)) last with
    | none =>
        rw [if_neg (by simp)]
        exact childrenAfter_null ids _
    | some value =>
        rw [if_pos (by simp), ← key]
        exact childrenAfter_next ids isLast (by rw [key]; rfl)

/-- Following the cursors of an unchanged directory gives the children in their order, each once, if and only if the
    limit is at least one (or there are no children), and the directory is on one page or no row has a flag that is
    NULL from the last one of the first page on. -/
theorem childPages_lossless_iff (db : RowOrder κ) (rows : List ChildRow) (ids : (rows.map ChildRow.id).Nodup)
    (parentUid : Text) (opts : ChildPageOpts) (noCursor : opts.cursor = none)
    (positive : ∀ limit ∈ opts.limit, 0 < limit) :
    (∃ pages, followChildPages db rows parentUid (rows.length + 2) opts = .ok pages ∧
      pages.flatten = orderedChildren db rows parentUid (opts.sortBy.getD .name) (opts.sortOrder.getD .asc)) ↔
    orderedChildren db rows parentUid (opts.sortBy.getD .name) (opts.sortOrder.getD .asc) = [] ∨
      0 < pageLimit opts ∧
        ((orderedChildren db rows parentUid (opts.sortBy.getD .name) (opts.sortOrder.getD .asc)).length ≤ pageLimit opts ∨
          ∀ row ∈ (orderedChildren db rows parentUid (opts.sortBy.getD .name) (opts.sortOrder.getD .asc)).drop
            (pageLimit opts - 1), opts.sortBy = some .type → row.isDir.isSome) := by
  have keyed : ∀ row, (sortExpr db (opts.sortBy.getD .name) row).isSome = true ↔
      (opts.sortBy = some .type → row.isDir.isSome) := by
    intro row
    cases opts.sortBy with
    | none => simp [sortExpr]
    | some field => cases field <;> simp [sortExpr]
  rcases le_or_gt (orderedChildren db rows parentUid (opts.sortBy.getD .name) (opts.sortOrder.getD .asc)).length
    (pageLimit opts) with fits | more
  · -- One page holds all.
    have listed : followChildPages db rows parentUid (rows.length + 2) opts =
        .ok [orderedChildren db rows parentUid (opts.sortBy.getD .name) (opts.sortOrder.getD .asc)] := by
      rw [← sortFieldOf_asked, ← sortOrderOf_asked] at fits ⊢
      rw [followChildPages, listChildrenPage_first noCursor positive, childPageAfter_whole fits]
      rfl
    apply iff_of_true ⟨_, listed, List.flatten_singleton⟩
    rcases Nat.eq_zero_or_pos (pageLimit opts) with zero | atLeastOne
    · exact .inl (List.eq_nil_of_length_eq_zero (by omega))
    · exact .inr ⟨atLeastOne, .inl fits⟩
  have nonempty : orderedChildren db rows parentUid (opts.sortBy.getD .name) (opts.sortOrder.getD .asc) ≠ [] :=
    List.ne_nil_of_length_pos (by omega)
  rcases Nat.eq_zero_or_pos (pageLimit opts) with zero | atLeastOne
  · -- The first page has no last row.
    have fails : followChildPages db rows parentUid (rows.length + 2) opts = .error (.failed .typeError) := by
      rw [← sortFieldOf_asked, ← sortOrderOf_asked] at nonempty
      rw [followChildPages, listChildrenPage_first noCursor positive, zero, childPageAfter_empty nonempty]
    rw [fails]
    apply iff_of_false
    · rintro ⟨pages, follows, -⟩
      cases follows
    · rintro (empty | ⟨positive, -⟩)
      · exact nonempty empty
      · omega
  · rw [← sortFieldOf_asked, ← sortOrderOf_asked] at more
    obtain ⟨last, pages, isLast, follows, listed⟩ := followChildPages_split ids noCursor positive atLeastOne more
    rw [sortFieldOf_asked, sortOrderOf_asked] at isLast listed more
    have exact := (take_append_filter_eq_iff (fun row => (sortExpr db (opts.sortBy.getD .name) row).isSome) isLast
      more).trans (forall₂_congr fun row _ => keyed row)
    constructor
    · rintro ⟨pages', follows', all⟩
      obtain rfl := Except.ok.inj (follows.symm.trans follows')
      refine .inr ⟨atLeastOne, .inr (exact.mp ?_)⟩
      rw [← listed]
      exact all
    · rintro (empty | ⟨-, fits | notNull⟩)
      · exact absurd empty nonempty
      · omega
      · exact ⟨pages, follows, listed.trans (exact.mpr notNull)⟩

end Pages

def plainOrder : RowOrder Text := ⟨id, true, false⟩

def oldAndNew : List ChildRow :=
  [⟨1, ['p'], ['a'], some 5, none, none⟩, ⟨2, ['p'], ['b'], none, some 7, some false⟩]

/-- With half a row to a page the first call fails; by type, one row to a page, the second row is not listed. -/
theorem childPages_lose :
    (oldAndNew.map ChildRow.id).Nodup ∧
      (followChildPages plainOrder oldAndNew ['p'] 4 ⟨some (1 / 2), none, none, none⟩).toOption = none ∧
      (followChildPages plainOrder oldAndNew ['p'] 4 ⟨some 1, none, some .type, none⟩).toOption.map List.flatten =
        some [⟨1, ['p'], ['a'], some 5, none, none⟩] ∧
      orderedChildren plainOrder oldAndNew ['p'] .type .asc = oldAndNew := by
  decide +kernel

/-- By size, one row to a page, both are. -/
theorem childPages_lossless_oldAndNew :
    ∃ pages, followChildPages plainOrder oldAndNew ['p'] 4 ⟨some 1, none, some .size, some .desc⟩ = .ok pages ∧
      pages.flatten = orderedChildren plainOrder oldAndNew ['p'] .size .desc :=
  (childPages_lossless_iff plainOrder oldAndNew (by decide) ['p'] ⟨some 1, none, some .size, some .desc⟩ rfl
    (fun _ given => Option.some.inj given ▸ one_pos)).mpr (.inr ⟨by decide +kernel, .inr fun _ _ => nofun⟩)

end Puter
