import Mathlib
import TigerDuck.Relational.Keyset
import TigerDuck.Relational.Table

/-!
# The bulletin feed

`list_bulletins` of `server/routes/bulletins_feed.py`: the public list, newest first, a page at a
time. The cursor is the id of the last row of the page before, looked up again for the next page.
A request reads the cursor row and then its page, each in a statement of its own, so what others
commit in between is seen by the second.

- `pastCursor_iff`: the cursor's condition is the order of the list.
- `feed_complete`: a client that follows the cursors.
-/

namespace TigerDuck.Bulletins.Feed

open Relational

abbrev BulletinId := ℕ

/-- The columns of a `bulletins` row that the list decides by. -/
structure Bulletin where
  source : String
  canonicalOrg : Option String
  postedAt : Option ℤ
  /-- `user_id`, `device_id` and `list_id` of `dispatch_filter_json`. -/
  targetUser : Option String
  targetDevice : Option String
  targetList : Option String
  isDeleted : Bool
  deriving DecidableEq, Repr

/-- `PUBLIC_BULLETIN`. -/
def Bulletin.isPublic (b : Bulletin) : Bool :=
  !(decide (b.source = "custom_push") &&
    ((b.targetUser.or b.targetDevice).or b.targetList).isSome)

/-- Whether the list shows the row. -/
def Bulletin.visible (includeDeleted : Bool) (b : Bulletin) : Bool :=
  b.canonicalOrg.isSome && b.isPublic && (includeDeleted || !b.isDeleted)

/-- The condition a cursor row puts on the rows of its page. -/
def pastCursor (cursorId : BulletinId) (cursorPostedAt : Option ℤ) (id : BulletinId)
    (postedAt : Option ℤ) : Bool :=
  match cursorPostedAt with
  | some posted =>
    postedAt.any (fun t => decide (t < posted)) ||
      postedAt.any (fun t => decide (t = posted)) && decide (id < cursorId) || postedAt.isNone
  | none => postedAt.isNone && decide (id < cursorId)

/-- `posted_at DESC NULLS LAST, id DESC`. -/
def feedKey (id : BulletinId) (postedAt : Option ℤ) : (WithBot ℤ ×ₗ BulletinId)ᵒᵈ :=
  OrderDual.toDual (toLex (postedAt.elim ⊥ WithBot.some, id))

/-- A row's place in the list. -/
def rowKey (r : BulletinId × Bulletin) : (WithBot ℤ ×ₗ BulletinId)ᵒᵈ := feedKey r.1 r.2.postedAt

/-- The table, as the two statements of a request see it. -/
structure PageRead where
  cursorTable : Table BulletinId Bulletin
  pageTable : Table BulletinId Bulletin

/-- The rows a page is taken from; a cursor row that has vanished is no bound. -/
def candidates (read : PageRead) (cursor : Option BulletinId) (includeDeleted : Bool) :
    List (BulletinId × Bulletin) :=
  let cursorRow := cursor.bind fun c => (read.cursorTable.get c).map fun b => (c, b.postedAt)
  read.pageTable.select fun id b =>
    b.visible includeDeleted && cursorRow.all fun c => pastCursor c.1 c.2 id b.postedAt

/-- `list_bulletins`: the items, and `next_cursor`. -/
def listBulletins (read : PageRead) (limit : ℕ) (cursor : Option BulletinId)
    (includeDeleted : Bool) : List (BulletinId × Bulletin) × Option BulletinId :=
  let rows := firstBy rowKey (limit + 1) (candidates read cursor includeDeleted)
  let items := rows.take limit
  (items, if limit < rows.length then items.getLast?.map Prod.fst else none)

/-! ### The order -/

theorem feedKey_injective {id id' : BulletinId} {posted posted' : Option ℤ}
    (h : feedKey id posted = feedKey id' posted') : id = id' :=
  congrArg (fun k => (ofLex (OrderDual.ofDual k)).2) h

/-- The condition of a cursor is the order of the list. -/
theorem pastCursor_iff {c id : BulletinId} {cursorPosted posted : Option ℤ} :
    pastCursor c cursorPosted id posted = true ↔ feedKey c cursorPosted < feedKey id posted := by
  rw [feedKey, feedKey, OrderDual.toDual_lt_toDual, Prod.Lex.toLex_lt_toLex]
  cases cursorPosted with
  | none =>
    cases posted with
    | none => simp [pastCursor]
    | some t => simp [pastCursor]
  | some p =>
    cases posted with
    | none => simp [pastCursor]
    | some t => simp [pastCursor]

/-! ### A page -/

section Page

variable {read : PageRead} {limit : ℕ} {cursor : Option BulletinId} {includeDeleted : Bool}
  {posted : BulletinId → Option ℤ}

/-- The dates of a request's rows are those of their ids. -/
def PageRead.Dated (read : PageRead) (posted : BulletinId → Option ℤ) : Prop :=
  ∀ id b, read.cursorTable.get id = some b ∨ read.pageTable.get id = some b →
    b.postedAt = posted id

/-- The cursor row is still there. -/
def PageRead.KeepsCursor (read : PageRead) (cursor : Option BulletinId) : Prop :=
  ∀ c ∈ cursor, ∃ b, read.cursorTable.get c = some b

theorem mem_candidates_iff (hdated : read.Dated posted) (hkeeps : read.KeepsCursor cursor)
    {r : BulletinId × Bulletin} :
    r ∈ candidates read cursor includeDeleted ↔
      (read.pageTable.get r.1 = some r.2 ∧ r.2.visible includeDeleted = true) ∧
        ∀ c ∈ cursor, feedKey c (posted c) < rowKey r := by
  rw [candidates, Table.mem_select_iff, Bool.and_eq_true, and_assoc]
  refine and_congr_right fun _ => and_congr_right fun _ => ?_
  cases cursor with
  | none => simp
  | some c =>
    obtain ⟨b, hb⟩ := hkeeps c rfl
    simp [hb, hdated c b (.inl hb), pastCursor_iff, rowKey]

theorem candidates_nodup : ((candidates read cursor includeDeleted).map rowKey).Nodup := by
  refine List.Nodup.of_map (fun k => (ofLex (OrderDual.ofDual k)).2) ?_
  have hid : (fun k => (ofLex (OrderDual.ofDual k)).2) ∘ rowKey = Prod.fst := rfl
  rw [List.map_map, hid, candidates]
  exact read.pageTable.select_keys_nodup _

theorem items_eq : (listBulletins read limit cursor includeDeleted).1 =
    firstBy rowKey limit (candidates read cursor includeDeleted) := by
  simp [listBulletins, firstBy, List.take_take]

/-- The last page has all the rows there are. -/
theorem items_perm_of_none (hlimit : 0 < limit)
    (h : (listBulletins read limit cursor includeDeleted).2 = none) :
    (listBulletins read limit cursor includeDeleted).1.Perm
      (candidates read cursor includeDeleted) := by
  unfold listBulletins at h ⊢
  dsimp only at h ⊢
  split at h
  next hmore =>
    have hnil : (firstBy rowKey (limit + 1) (candidates read cursor includeDeleted)).take limit = [] :=
      List.getLast?_eq_none_iff.mp (Option.map_eq_none_iff.mp h)
    rcases List.take_eq_nil_iff.mp hnil with hzero | hempty
    · exact absurd hzero (Nat.ne_of_gt hlimit)
    · rw [hempty] at hmore
      exact absurd hmore (Nat.not_lt_zero _)
  next hless =>
    have hless := Nat.le_of_not_lt hless
    rw [List.take_of_length_le hless]
    exact firstBy_perm_of_lt (Nat.lt_succ_of_le hless)

/-- A page with a cursor after it ends in that row. -/
theorem getLast_of_some {c : BulletinId}
    (h : (listBulletins read limit cursor includeDeleted).2 = some c) :
    ∃ last, (listBulletins read limit cursor includeDeleted).1.getLast? = some last ∧
      last.1 = c := by
  unfold listBulletins at h ⊢
  dsimp only at h ⊢
  split at h
  next => exact Option.map_eq_some_iff.mp h
  next => cases h

end Page

/-! ### A client -/

/-- A client that follows `next_cursor` to the end, with the rows it receives. No cursor row is
deleted before it is looked up again. -/
inductive Follows (limit : ℕ) (includeDeleted : Bool) :
    Option BulletinId → List PageRead → List (BulletinId × Bulletin) → Prop
  | last {cursor : Option BulletinId} {read : PageRead} (hkeeps : read.KeepsCursor cursor)
      (hend : (listBulletins read limit cursor includeDeleted).2 = none) :
      Follows limit includeDeleted cursor [read] (listBulletins read limit cursor includeDeleted).1
  | more {cursor : Option BulletinId} {read : PageRead} {c : BulletinId} {reads : List PageRead}
      {items : List (BulletinId × Bulletin)} (hkeeps : read.KeepsCursor cursor)
      (hnext : (listBulletins read limit cursor includeDeleted).2 = some c)
      (hrest : Follows limit includeDeleted (some c) reads items) :
      Follows limit includeDeleted cursor (read :: reads)
        ((listBulletins read limit cursor includeDeleted).1 ++ items)

section Client

variable {limit : ℕ} {includeDeleted : Bool} {cursor : Option BulletinId} {reads : List PageRead}
  {items : List (BulletinId × Bulletin)} {posted : BulletinId → Option ℤ}

/-- A row that the list shows at every page. -/
def VisibleThroughout (includeDeleted : Bool) (reads : List PageRead) (id : BulletinId) : Prop :=
  ∀ read ∈ reads, ∃ b, read.pageTable.get id = some b ∧ b.visible includeDeleted = true

/-- What the client receives from a cursor on. -/
structure Received (includeDeleted : Bool) (posted : BulletinId → Option ℤ)
    (cursor : Option BulletinId) (reads : List PageRead) (items : List (BulletinId × Bulletin)) :
    Prop where
  sorted : items.Pairwise fun r r' => rowKey r < rowKey r'
  past : ∀ r ∈ items, ∀ c ∈ cursor, feedKey c (posted c) < rowKey r
  shown : ∀ r ∈ items, ∃ read ∈ reads, read.pageTable.get r.1 = some r.2 ∧
    r.2.visible includeDeleted = true
  complete : ∀ id, VisibleThroughout includeDeleted reads id →
    (∀ c ∈ cursor, feedKey c (posted c) < feedKey id (posted id)) → id ∈ items.map Prod.fst

theorem received (hlimit : 0 < limit) (hfollows : Follows limit includeDeleted cursor reads items)
    (hdated : ∀ read ∈ reads, read.Dated posted) :
    Received includeDeleted posted cursor reads items := by
  induction hfollows with
  | @last cursor read hkeeps hend =>
    have hdated := hdated read (List.mem_singleton_self read)
    have hperm := items_perm_of_none hlimit hend
    constructor
    case sorted =>
      rw [items_eq]
      exact firstBy_sorted candidates_nodup
    case past =>
      intro r hr
      exact ((mem_candidates_iff hdated hkeeps).mp (hperm.mem_iff.mp hr)).2
    case shown =>
      intro r hr
      obtain ⟨hshown, -⟩ := (mem_candidates_iff hdated hkeeps).mp (hperm.mem_iff.mp hr)
      exact ⟨read, List.mem_singleton_self read, hshown⟩
    case complete =>
      intro id hvisible hpast
      obtain ⟨b, hb, hshown⟩ := hvisible read (List.mem_singleton_self read)
      refine List.mem_map.mpr ⟨(id, b), hperm.mem_iff.mpr ?_, rfl⟩
      refine (mem_candidates_iff hdated hkeeps).mpr ⟨⟨hb, hshown⟩, fun c hc => ?_⟩
      rw [rowKey, hdated id b (.inr hb)]
      exact hpast c hc
  | @more cursor read c reads items hkeeps hnext hrest ih =>
    have ih := ih fun read hread => hdated read (List.mem_cons_of_mem _ hread)
    have hdated := hdated read List.mem_cons_self
    obtain ⟨last, hlast, rfl⟩ := getLast_of_some hnext
    have hperm := hlast
    rw [items_eq] at hperm
    have hperm := items_eq ▸ firstBy_perm_filter candidates_nodup hperm
    have hmem {r : BulletinId × Bulletin}
        (hr : r ∈ (listBulletins read limit cursor includeDeleted).1) :
        r ∈ candidates read cursor includeDeleted ∧ rowKey r ≤ rowKey last := by
      have hr := hperm.mem_iff.mp hr
      rw [List.mem_filter, decide_eq_true_eq] at hr
      exact hr
    have hlastPage := hmem (List.mem_of_getLast? hlast)
    have hlastDated : rowKey last = feedKey last.1 (posted last.1) := by
      obtain ⟨⟨hb, -⟩, -⟩ := (mem_candidates_iff hdated hkeeps).mp hlastPage.1
      rw [rowKey, hdated _ _ (.inr hb)]
    constructor
    case sorted =>
      refine List.pairwise_append.mpr ⟨?_, ih.sorted, fun r hr r' hr' => ?_⟩
      · rw [items_eq]
        exact firstBy_sorted candidates_nodup
      · exact (hmem hr).2.trans_lt (hlastDated ▸ ih.past r' hr' last.1 rfl)
    case past =>
      intro r hr c hc
      rcases List.mem_append.mp hr with hr | hr
      · exact ((mem_candidates_iff hdated hkeeps).mp (hmem hr).1).2 c hc
      · have hcursor := ((mem_candidates_iff hdated hkeeps).mp hlastPage.1).2 c hc
        exact hcursor.trans (hlastDated ▸ ih.past r hr last.1 rfl)
    case shown =>
      intro r hr
      rcases List.mem_append.mp hr with hr | hr
      · obtain ⟨hshown, -⟩ := (mem_candidates_iff hdated hkeeps).mp (hmem hr).1
        exact ⟨read, List.mem_cons_self, hshown⟩
      · obtain ⟨read', hread', hshown⟩ := ih.shown r hr
        exact ⟨read', List.mem_cons_of_mem _ hread', hshown⟩
    case complete =>
      intro id hvisible hpast
      obtain ⟨b, hb, hshown⟩ := hvisible read List.mem_cons_self
      have hkey : rowKey (id, b) = feedKey id (posted id) := by
        rw [rowKey, hdated id b (.inr hb)]
      rw [List.map_append, List.mem_append]
      -- Either the row is on this page, or it comes after the page's last one.
      rcases le_or_gt (rowKey (id, b)) (rowKey last) with hle | hgt
      · refine .inl (List.mem_map.mpr ⟨(id, b), hperm.mem_iff.mpr ?_, rfl⟩)
        refine List.mem_filter.mpr ⟨?_, decide_eq_true hle⟩
        refine (mem_candidates_iff hdated hkeeps).mpr ⟨⟨hb, hshown⟩, fun c hc => ?_⟩
        rw [hkey]
        exact hpast c hc
      · refine .inr (ih.complete id (fun read hread => hvisible read (List.mem_cons_of_mem _ hread)) ?_)
        intro c hc
        obtain rfl := Option.some.inj hc
        rw [← hlastDated, ← hkey]
        exact hgt

/-- **Paging through the feed is complete.** Rows may be inserted, hidden and deleted meanwhile. -/
theorem feed_complete (hlimit : 0 < limit) (hfollows : Follows limit includeDeleted none reads items)
    (hdated : ∀ read ∈ reads, read.Dated posted) :
    (items.Pairwise fun r r' => rowKey r < rowKey r') ∧
      (∀ r ∈ items, ∃ read ∈ reads, read.pageTable.get r.1 = some r.2 ∧
        r.2.visible includeDeleted = true) ∧
      ∀ id, VisibleThroughout includeDeleted reads id → (items.map Prod.fst).count id = 1 := by
  have h := received hlimit hfollows hdated
  have hkey : ∀ r ∈ items, rowKey r = feedKey r.1 (posted r.1) := by
    intro r hr
    obtain ⟨read, hread, hrow, -⟩ := h.shown r hr
    rw [rowKey, hdated read hread r.1 r.2 (.inr hrow)]
  have hnodup : (items.map Prod.fst).Nodup := by
    refine List.pairwise_map.mpr (h.sorted.imp_of_mem fun {r r'} hr hr' hless heq => ?_)
    rw [hkey r hr, hkey r' hr', heq] at hless
    exact lt_irrefl _ hless
  refine ⟨h.sorted, h.shown, fun id hvisible => ?_⟩
  exact List.count_eq_one_of_mem hnodup (h.complete id hvisible fun c hc => nomatch hc)

end Client

/-! ### Three pages -/

/-- A bulletin of the school's. -/
def notice (postedAt : Option ℤ) (isDeleted : Bool) : Bulletin where
  source := "ntust_general"
  canonicalOrg := some "academic_affairs"
  postedAt
  targetUser := none
  targetDevice := none
  targetList := none
  isDeleted

/-- Two bulletins of one day and two without a date. -/
def firstTable : Table BulletinId Bulletin :=
  ⟨[(1, notice (some 5) false), (2, notice (some 5) false), (3, notice none false),
    (4, notice none false)], by decide⟩

/-- The first page's last row is hidden, and a newer bulletin is there. -/
def secondTable : Table BulletinId Bulletin :=
  ⟨[(1, notice (some 5) false), (2, notice (some 5) true), (3, notice none false),
    (4, notice none false), (5, notice (some 9) false)], by decide⟩

/-- The dates of the five. -/
def dates (id : BulletinId) : Option ℤ := if id ≤ 2 then some 5 else if id = 5 then some 9 else none

theorem dated_dates {read : PageRead}
    (hread : ∀ r ∈ read.cursorTable.rows ++ read.pageTable.rows, r.2.postedAt = dates r.1) :
    read.Dated dates := by
  rintro id b (hb | hb)
  · exact hread (id, b) (List.mem_append_left _ ((Table.get_eq_some_iff ..).mp hb))
  · exact hread (id, b) (List.mem_append_right _ ((Table.get_eq_some_iff ..).mp hb))

/-- One row a page: the two dated ones, and then the two undated ones. -/
theorem feed_complete_of_four :
    ∃ items, Follows 1 false none [⟨firstTable, firstTable⟩, ⟨firstTable, secondTable⟩,
        ⟨secondTable, secondTable⟩, ⟨secondTable, secondTable⟩] items ∧
      items.map Prod.fst = [2, 1, 4, 3] ∧ (items.map Prod.fst).count 3 = 1 := by
  have hfollows : Follows 1 false none [⟨firstTable, firstTable⟩, ⟨firstTable, secondTable⟩,
      ⟨secondTable, secondTable⟩, ⟨secondTable, secondTable⟩] _ :=
    .more (c := 2) (fun c hc => nomatch hc) (by decide +kernel)
      (.more (c := 1) (fun c hc => by cases hc; exact ⟨_, rfl⟩) (by decide +kernel)
        (.more (c := 4) (fun c hc => by cases hc; exact ⟨_, rfl⟩) (by decide +kernel)
          (.last (fun c hc => by cases hc; exact ⟨_, rfl⟩) (by decide +kernel))))
  refine ⟨_, hfollows, by decide +kernel, ?_⟩
  refine (feed_complete Nat.one_pos hfollows fun read hread => dated_dates ?_).2.2 3 ?_
  · revert read
    decide +kernel
  · intro read hread
    have hrow : read.pageTable.get 3 = some (notice none false) := by
      revert read
      decide +kernel
    exact ⟨_, hrow, rfl⟩

end TigerDuck.Bulletins.Feed
