import TigerDuck.Sync.SettingsVersions

/-!
# A client's copy of the settings documents

A client takes a full snapshot, follows the feed page by page from the snapshot's revision, and
reads again what a page names. In between, documents are written, first uploads bring theirs, and
changes are purged.

What keeps the copy true is that a document changes in the commit that publishes its change, and
that the change lies past every revision a page has been cut at: until the client has read it, it
is still ahead of the cursor.

- `Following`: what holds of the client's copy.
- `Intact`: no purge has come between a page's two statements.
- `replica_current`: a client that has caught up holds the server's documents.
-/

namespace TigerDuck.Sync.SettingsDocuments

open Changelog (UserChangeLog UserId TxnId changePage selectRows window mem_window window_sorted
  changePage_window)
open Relational Transition

variable {δ : Type} {me : UserId} {db db' : Db δ} {t : TxnId} {k : Txn δ} {l : Label δ}
  {ns : SettingsNamespace} {labels : List (Label δ)}

/-- A change of a document is still ahead of the client. -/
def Ahead (db : Db δ) (ns : SettingsNamespace) : Prop :=
  ∃ r ∈ db.everLogged, db.replica.cursor < r.revision ∧ r.change.document = some ns

/-- What holds of a client that follows the feed. -/
structure Following (db : Db δ) : Prop where
  cursor : db.replica.cursor ≤ db.currentRevision
  reading : ∀ current, db.replica.reading = some current →
    db.replica.cursor ≤ current ∧ current ≤ db.currentRevision
  /-- A document that differs from the server's is to be read again, or will be. -/
  documents : ∀ ns, db.replica.documents ns = db.docs.get ns ∨ ns ∈ db.replica.toRead ∨ Ahead db ns
  /-- The client holds documents the server has had. -/
  known : ∀ ns doc, db.replica.documents ns = some doc → doc ∈ db.versions ns

/-- Whether a statement is the second of a page. -/
def Label.isPage : Label δ → Bool
  | .readRows _ => true
  | _ => false

/-- No change the page has to carry has been purged since its first statement. -/
def Intact (db : Db δ) (l : Label δ) : Prop :=
  l.isPage = true → db.compactedRevision ≤ db.replica.cursor

instance (db : Db δ) (l : Label δ) : Decidable (Intact db l) :=
  inferInstanceAs (Decidable (_ → _))

/-! ### What each step keeps -/

theorem following_initial : Following (Db.initial : Db δ) where
  cursor := le_rfl
  reading _ hreading := nomatch hreading
  documents _ := Or.inl rfl
  known _ _ hdoc := nomatch hdoc

/-- What a page names is to be read again, and what it leaves out is still ahead. -/
theorem Following.readRows (h : Following db) (hinv : Inv me db) {current limit : ℕ}
    (hreading : db.replica.reading = some current) (hlimit : 0 < limit)
    (hintact : db.compactedRevision ≤ db.replica.cursor) :
    Following (db.readRows me current limit) := by
  obtain ⟨hcursor, hcurrent⟩ := h.reading current hreading
  have hlog : db.log.Pairwise fun a b => a.userId = b.userId → a.revision < b.revision := by
    rw [hinv.log]
    refine List.Pairwise.sublist List.filter_sublist ?_
    exact (List.pairwise_map.mp hinv.sorted).imp fun {a b} hlt (_ : a.userId = b.userId) => hlt
  have hwindow := window_sorted me db.replica.cursor current hlog
  have hle : ∀ r ∈ window db.log me db.replica.cursor current, r.revision ≤ current :=
    fun r hr => ((mem_window ..).mp hr).2.2.2
  obtain ⟨hchanges, huntil, _, hcarried, hend⟩ := changePage_window hwindow hle hlimit
  set page := changePage ((window db.log me db.replica.cursor current).take (limit + 1)) current limit
    with hpage
  have hforward : db.replica.cursor ≤ page.returnedUntilRevision := by
    rcases hend with heq | ⟨r, hr, heq⟩
    · rw [heq]
      exact hcursor
    · rw [← heq]
      exact ((mem_window ..).mp hr).2.2.1.le
  refine ⟨huntil.trans hcurrent, (fun _ hnone => nomatch hnone), fun ns => ?_, h.known⟩
  rcases h.documents ns with hsame | hread | ⟨r, hr, hahead, hnames⟩
  · exact Or.inl hsame
  · exact Or.inr (Or.inl (List.mem_append_left _ hread))
  · by_cases hcut : page.returnedUntilRevision < r.revision
    · exact Or.inr (Or.inr ⟨r, hr, hcut, hnames⟩)
    · -- Within the page: the purge has left the change, so the page carries it.
      have hwithin := Nat.not_lt.mp hcut
      have hstays : r ∈ db.log := by
        rw [hinv.log]
        exact List.mem_filter.mpr ⟨hr, decide_eq_true (hintact.trans_lt hahead)⟩
      have hmem : r ∈ window db.log me db.replica.cursor current :=
        (mem_window ..).mpr ⟨hstays, (hinv.bounded r hr).1, hahead, hwithin.trans huntil⟩
      refine Or.inr (Or.inl (List.mem_append_right _ ?_))
      refine List.mem_filterMap.mpr ⟨r.entry, ?_, hnames⟩
      show r.entry ∈ page.changes
      rw [hchanges]
      exact List.mem_map_of_mem (hcarried r hmem hwithin)

/-- A document changes with a change that is ahead of the client. -/
theorem Following.commit (h : Following db) (hinv : Inv me db) (htxn : db.txns t = some k)
    {exchanges : List (Exchange δ)} (hcommits : Commits k exchanges) :
    Following (db.commitTxn t k exchanges) := by
  have hk := hinv.txns t k htxn
  have hcurrent := (hk.current hinv.below exchanges).1
  refine ⟨h.cursor.trans hcurrent, fun current hreading => ?_, fun ns => ?_, fun ns doc hdoc => ?_⟩
  · obtain ⟨hfrom, hto⟩ := h.reading current hreading
    exact ⟨hfrom, hto.trans hcurrent⟩
  · cases hget : k.writes.get ns with
    | none =>
      have hdocs : (db.commitTxn t k exchanges).docs.get ns = db.docs.get ns := by
        show (db.docs.overwriteFrom k.writes _).get ns = _
        rw [Table.get_overwriteFrom, hget]
        rfl
      rw [hdocs]
      rcases h.documents ns with hsame | hread | ⟨r, hr, hahead, hnames⟩
      · exact Or.inl hsame
      · exact Or.inr (Or.inl hread)
      · exact Or.inr (Or.inr ⟨r, List.mem_append_left _ hr, hahead, hnames⟩)
    | some doc =>
      have hentries := hk.entries ns
      rw [hcommits.unlogged, if_neg nofun, hget] at hentries
      have hmem : doc.revision ∈ settingsOf ns k.entries := by
        rw [hentries]
        exact List.mem_singleton_self _
      obtain ⟨r, hr, hrevision⟩ := List.mem_filterMap.mp hmem
      have hahead := h.cursor.trans_lt (hk.range r hr).2.1
      refine Or.inr (Or.inr ⟨r, List.mem_append_right _ hr, hahead, ?_⟩)
      cases hchange : r.change with
      | other =>
        rw [hchange] at hrevision
        cases hrevision
      | settingsDocument ns' revision =>
        rw [hchange, Change.revisionOf] at hrevision
        split at hrevision
        next hns => exact congrArg some hns
        next => cases hrevision
  · exact List.mem_append_left _ (h.known ns doc hdoc)

theorem Following.step (h : Following db) (hinv : Inv me db) (hok : Intact db l)
    (hstep : step me db l = some db') : Following db' := by
  have hlast : ∀ ns doc, db.docs.get ns = some doc → doc ∈ db.versions ns :=
    fun ns doc hget => List.mem_of_getLast? ((hinv.stored ns).symm.trans hget)
  cases step_cases hstep with
  | commit htxn hcommits => exact h.commit hinv htxn hcommits
  | fullSync =>
    exact ⟨le_rfl, (fun _ hnone => nomatch hnone), fun _ => Or.inl rfl, hlast⟩
  | readState _ =>
    refine { h with reading := fun current hreading => ?_ }
    obtain rfl := Option.some.inj hreading
    exact ⟨h.cursor, le_rfl⟩
  | readRows hreading hlimit => exact h.readRows hinv hreading hlimit (hok rfl)
  | @readDocument ns =>
    refine { h with documents := fun ns' => ?_, known := fun ns' doc hdoc => ?_ }
    · by_cases hns : ns' = ns
      · subst hns
        exact Or.inl (Function.update_self ..)
      · rcases h.documents ns' with hsame | hread | hahead
        · exact Or.inl ((Function.update_of_ne hns ..).trans hsame)
        · exact Or.inr (Or.inl (List.mem_filter.mpr ⟨hread, decide_eq_true hns⟩))
        · exact Or.inr (Or.inr hahead)
    · rcases update_cases hdoc with ⟨rfl, hget⟩ | ⟨_, hold⟩
      · exact hlast ns' doc hget
      · exact h.known ns' doc hold
  | put _ => exact { h with }
  | beginLocked _ _ _ => exact { h with }
  | move _ _ => exact { h with }
  | lockSyncState _ _ _ => exact { h with }
  | write _ _ _ => exact { h with }
  | append _ _ => exact { h with }
  | rollback => exact { h with }
  | purge _ _ => exact { h with }
  | expire _ => exact { h with }

/-- What a run keeps in which every page is intact. -/
theorem following_of_run (hrun : Run (step me) Intact (Db.initial : Db δ) labels db) :
    Following db := by
  refine (hrun.invariant (fun db => Inv me db ∧ Following db) ⟨inv_initial, following_initial⟩ ?_).2
  rintro db l db' ⟨hinv, h⟩ hok hstep
  exact ⟨hinv.step hstep, h.step hinv hok hstep⟩

/-- In every run in which no purge comes between a page's two statements, a client that has read
up to the current revision, and again what the pages have named, holds exactly the server's
documents; and at any time what it holds of a document is one of its versions. -/
theorem replica_current (hrun : Run (step me) Intact (Db.initial : Db δ) labels db) :
    (db.replica.cursor = db.currentRevision → db.replica.toRead = [] →
      ∀ ns, db.replica.documents ns = db.docs.get ns) ∧
      (∀ ns, db.replica.documents ns ≠ db.docs.get ns → ns ∉ db.replica.toRead →
        ∃ r ∈ db.everLogged, db.replica.cursor < r.revision ∧ r.change.document = some ns) ∧
      ∀ ns doc, db.replica.documents ns = some doc → doc ∈ db.versions ns := by
  have h := following_of_run hrun
  have hinv := inv_of_run hrun.free
  refine ⟨fun hcaught hread ns => ?_, fun ns hne hread => ?_, h.known⟩
  · rcases h.documents ns with hsame | hto | ⟨r, hr, hahead, _⟩
    · exact hsame
    · rw [hread] at hto
      cases hto
    · rw [hcaught] at hahead
      exact absurd (hinv.bounded r hr).2 (Nat.not_le.mpr hahead)
  · exact ((h.documents ns).resolve_left hne).resolve_left hread

/-- A client has a snapshot, and a document changes. -/
def behind : List (Label String) :=
  [.fullSync, .put 1 .watch ⟨1, "round", none⟩, .find 1, .insert 1, .lockSyncState 1,
    .appendChange 1 10, .commit 1]

/-- It follows the feed, and the change is purged once it has read it. -/
def caughtUp : List (Label String) :=
  behind ++ [.readState, .readRows 200, .purge 1, .readDocument .watch]

/-- A client that has caught up holds a document that changed after its snapshot. -/
theorem replica_current_of_caughtUp :
    ∃ db, Run (step 7) Intact (Db.initial : Db String) caughtUp db ∧
      db.replica.documents .watch = some ⟨1, "round", 1⟩ ∧
      db.replica.documents .watch = db.docs.get .watch := by
  have hexec : (execWhere (step 7) Intact (Db.initial : Db String) caughtUp).map
      (fun db => (db.replica.cursor, db.currentRevision, db.replica.toRead,
        db.replica.documents .watch)) = some (1, 1, [], some ⟨1, "round", 1⟩) := by
    decide +kernel
  obtain ⟨db, hdb, hfacts⟩ := Option.map_eq_some_iff.mp hexec
  simp only [Prod.mk.injEq] at hfacts
  obtain ⟨hcursor, hcurrent, hread, hholds⟩ := hfacts
  have hrun := run_of_execWhere hdb
  exact ⟨db, hrun, hholds, (replica_current hrun).1 (hcursor.trans hcurrent.symm) hread .watch⟩

/-- Where the change is purged between a page's two statements, the client is past it, has nothing to
read again, and holds no document. -/
example : ((exec (step 7) (Db.initial : Db String)
    (behind ++ [.readState, .purge 1, .readRows 200])).map fun db =>
      (db.replica.cursor, db.replica.toRead.isEmpty, (db.replica.documents .watch).isSome,
        (db.docs.get .watch).isSome)) = some (1, true, false, true) := by
  decide +kernel

end TigerDuck.Sync.SettingsDocuments
