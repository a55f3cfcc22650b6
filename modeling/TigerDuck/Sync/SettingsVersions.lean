import TigerDuck.Sync.SettingsDocuments

/-!
# Versions of settings documents

Whatever order the requests of a user's devices run in, a document's versions are numbered one by
one, each is the answer to one request or came with the first upload, and the change log names
each once, in their order.

What carries the proof is that a document is held from its write to the commit, and that nothing
is committed without the user's sync state: so a revision is drawn, and named, by the transaction
that holds both.

- `Work.Sound`, `TxnInv`, `Inv`: what holds of a transaction, and of every state.
- `Kept`: what a step of others leaves to a transaction.
- `documents_exact`: the versions, the log and the answers.
-/

namespace TigerDuck.Sync.SettingsDocuments

open Changelog (UserChangeLog UserId TxnId)
open Relational Transition

variable {δ : Type} {me : UserId} {db db' : Db δ} {t t' : TxnId} {k : Txn δ} {l : Label δ}
  {ns : SettingsNamespace} {doc : Document δ} {work : Work δ} {labels : List (Label δ)}

/-! ### What holds of a transaction -/

/-- The revision after the stored one. -/
def Db.nextOf (db : Db δ) (ns : SettingsNamespace) : Nat :=
  (db.docs.get ns).elim 1 fun doc => doc.revision + 1

/-- A transaction has written nothing. -/
def Txn.Clean (k : Txn δ) : Prop := (∀ ns, k.writes.get ns = none) ∧ k.entries = []

/-- A transaction has written one document. -/
def Txn.Only (k : Txn δ) (ns : SettingsNamespace) (doc : Document δ) : Prop :=
  ∀ ns', k.writes.get ns' = if ns' = ns then some doc else none

/-- What an upload writes are new documents. -/
def Txn.Imports (k : Txn δ) : Prop := ∀ ns doc, k.writes.get ns = some doc → doc.revision = 1

/-- The document whose change a transaction has still to append. -/
def Work.unlogged : Work δ → Option SettingsNamespace
  | .written ns _ => some ns
  | .logging ns _ => some ns
  | .inserted item _ => some item.ns
  | _ => none

/-- Whether a transaction holds the user's sync state where it stands. -/
def Work.holds : Work δ → Bool
  | .logging _ _ => true
  | .upload _ => true
  | .missing _ _ => true
  | .inserted _ _ => true
  | .other => true
  | _ => false

/-- What holds where a transaction stands. -/
def Work.Sound (db : Db δ) (k : Txn δ) : Work δ → Prop
  | .put _ _ => k.Clean
  | .creating _ payload => k.Clean ∧ payload.baseRevision = none
  | .refused _ _ => k.Clean
  | .written ns payload => k.Only ns payload.result ∧ k.entries = []
  | .logging ns payload => k.Only ns payload.result ∧ k.entries = []
  | .answered exchange =>
    match exchange.answer with
    | .ok doc => doc = exchange.payload.result ∧ k.Only exchange.ns doc
    | .conflict server => k.Clean ∧ server ∈ db.versions exchange.ns
    | _ => k.Clean
  | .upload _ => k.Imports
  | .missing item _ => k.Imports ∧ k.writes.get item.ns = none
  | .inserted item _ => k.Imports ∧ k.writes.get item.ns = some item.result
  | .other => ∀ ns, k.writes.get ns = none

/-- What holds of an open transaction. -/
structure TxnInv (me : UserId) (db : Db δ) (t : TxnId) (k : Txn δ) : Prop where
  /-- What it has written is the next revision of a document it holds. -/
  writes : ∀ ns doc, k.writes.get ns = some doc →
    db.docLocks ns = some t ∧ doc.revision = db.nextOf ns
  /-- Its changes name what it has written. -/
  entries : ∀ ns, settingsOf ns k.entries =
    if k.work.unlogged = some ns then [] else (k.writes.get ns).toList.map (·.revision)
  sorted : (k.entries.map (·.revision)).Pairwise (· < ·)
  range : ∀ r ∈ k.entries, r.userId = me ∧ db.currentRevision < r.revision ∧
    r.revision < db.nextRevision
  holder : k.work.holds = true ∨ k.entries ≠ [] → db.syncLock = some t
  sound : k.work.Sound db k

/-- The documents of the accepted requests, in the order they were committed. -/
def accepted (exchanges : List (Exchange δ)) (ns : SettingsNamespace) : List (Document δ) :=
  exchanges.filterMap fun e =>
    if e.ns = ns then
      match e.answer with
      | .ok doc => some doc
      | _ => none
    else none

/-- What a request may have been answered. -/
def Exchange.Sound (db : Db δ) (e : Exchange δ) : Prop :=
  match e.answer with
  | .ok doc => doc = e.payload.result
  | .conflict server => server ∈ db.versions e.ns
  | _ => True

/-- What holds of every state that can be reached. -/
structure Inv (me : UserId) (db : Db δ) : Prop where
  numbered : ∀ ns, (db.versions ns).map (·.revision) = List.range' 1 (db.versions ns).length
  stored : ∀ ns, db.docs.get ns = (db.versions ns).getLast?
  told : ∀ ns, settingsOf ns db.everLogged = (db.versions ns).map (·.revision)
  sorted : (db.everLogged.map (·.revision)).Pairwise (· < ·)
  bounded : ∀ r ∈ db.everLogged, r.userId = me ∧ r.revision ≤ db.currentRevision
  below : db.currentRevision < db.nextRevision
  compacted : db.compactedRevision ≤ db.currentRevision
  log : db.log = db.everLogged.filter fun r => db.compactedRevision < r.revision
  answered : ∀ ns, db.versions ns = accepted db.exchanges ns ∨
    ∃ first, db.versions ns = first :: accepted db.exchanges ns
  exchanges : ∀ e ∈ db.exchanges, e.Sound db
  txns : ∀ t k, db.txns t = some k → TxnInv me db t k

/-- The next revision is the number of the next version. -/
theorem Inv.nextOf (h : Inv me db) (ns : SettingsNamespace) :
    db.nextOf ns = (db.versions ns).length + 1 := by
  rw [Db.nextOf, h.stored]
  have hnumbered := h.numbered ns
  rcases List.eq_nil_or_concat (db.versions ns) with hnil | ⟨init, last, hlast⟩
  · rw [hnil]
    rfl
  · rw [List.concat_eq_append] at hlast
    rw [hlast] at hnumbered ⊢
    rw [List.getLast?_concat, Option.elim_some]
    have hget := congrArg List.getLast? hnumbered
    rw [List.map_append, List.map_singleton, List.getLast?_concat, List.length_append,
      List.length_singleton, List.range'_concat, List.getLast?_concat] at hget
    have := Option.some.inj hget
    rw [List.length_append, List.length_singleton]
    omega

/-! ### What others leave to a transaction -/

/-- What a step leaves to a transaction it is not of. -/
structure Kept (t : TxnId) (db db' : Db δ) : Prop where
  locks : ∀ ns, db.docLocks ns = some t →
    db'.docLocks ns = some t ∧ db'.docs.get ns = db.docs.get ns
  sync : db.syncLock = some t →
    db'.syncLock = some t ∧ db'.currentRevision = db.currentRevision
  nextRevision : db.nextRevision ≤ db'.nextRevision
  versions : ∀ ns doc, doc ∈ db.versions ns → doc ∈ db'.versions ns

theorem Work.Sound.mono (h : work.Sound db k)
    (hversions : ∀ ns doc, doc ∈ db.versions ns → doc ∈ db'.versions ns) : work.Sound db' k := by
  cases work with
  | answered exchange =>
    obtain ⟨ns, payload, answer⟩ := exchange
    cases answer with
    | conflict server => exact ⟨h.1, hversions _ _ h.2⟩
    | _ => exact h
  | _ => exact h

theorem TxnInv.kept (h : TxnInv me db t k) (hkept : Kept t db db') : TxnInv me db' t k where
  writes ns doc hget := by
    obtain ⟨hlock, hrevision⟩ := h.writes ns doc hget
    obtain ⟨hlock', hdocs⟩ := hkept.locks ns hlock
    exact ⟨hlock', by rw [hrevision, Db.nextOf, Db.nextOf, hdocs]⟩
  entries := h.entries
  sorted := h.sorted
  range r hr := by
    obtain ⟨hme, hlow, hhigh⟩ := h.range r hr
    have hsync := h.holder (Or.inr (List.ne_nil_of_mem hr))
    rw [(hkept.sync hsync).2]
    exact ⟨hme, hlow, hhigh.trans_le hkept.nextRevision⟩
  holder hor := (hkept.sync (h.holder hor)).1
  sound := h.sound.mono hkept.versions

/-- A transaction's own step changes nothing that others hold. -/
theorem kept_setTxn (h : Kept t db db') (k' : Txn δ) : Kept t db (db'.setTxn t' k') :=
  ⟨h.locks, h.sync, h.nextRevision, h.versions⟩

theorem Kept.refl (t : TxnId) (db : Db δ) : Kept t db db :=
  ⟨fun _ h => ⟨h, rfl⟩, fun h => ⟨h, rfl⟩, le_rfl, fun _ _ h => h⟩

theorem kept_close (hne : t ≠ t') (db : Db δ) : Kept t db (db.close t') where
  locks _ h := ⟨RowLocks.release_of_held h hne, rfl⟩
  sync h := by
    have hother : ¬db.syncLock = some t' := fun heq => hne (Option.some.inj (h.symm.trans heq))
    exact ⟨(if_neg hother).trans h, rfl⟩
  nextRevision := le_rfl
  versions _ _ h := h

/-- A commit leaves alone what it has not locked. -/
theorem kept_commit (hne : t ≠ t') (hinv : TxnInv me db t' k) (exchanges : List (Exchange δ)) :
    Kept t db (db.commitTxn t' k exchanges) where
  locks ns h := by
    refine ⟨RowLocks.release_of_held h hne, ?_⟩
    show (db.docs.overwriteFrom k.writes _).get ns = _
    rw [Table.get_overwriteFrom]
    cases hget : k.writes.get ns with
    | none => rfl
    | some doc =>
      have hlock := (hinv.writes ns doc hget).1
      exact absurd (Option.some.inj (h.symm.trans hlock)) hne
  sync h := by
    have hother : ¬db.syncLock = some t' := fun heq => hne (Option.some.inj (h.symm.trans heq))
    refine ⟨(if_neg hother).trans h, ?_⟩
    -- Whoever appends holds the sync state.
    have hnil : k.entries = [] := by
      by_contra hsome
      exact hother (hinv.holder (Or.inr hsome))
    show (k.entries.getLast?.map _).getD _ = _
    rw [hnil]
    rfl
  nextRevision := le_rfl
  versions ns doc h := List.mem_append_left _ h

/-! ### What each step keeps -/

/-- Every open transaction is well after a step of one of them. -/
theorem txns_set (h : ∀ t k, db.txns t = some k → TxnInv me db t k)
    (htxns : db'.txns = Function.update db.txns t (some k))
    (hkept : ∀ t', t' ≠ t → Kept t' db db') (hnew : TxnInv me db' t k) :
    ∀ t' k', db'.txns t' = some k' → TxnInv me db' t' k' := by
  intro t' k' hk'
  rw [htxns] at hk'
  rcases update_cases hk' with ⟨rfl, hk⟩ | ⟨hne, hold⟩
  · obtain rfl := Option.some.inj hk
    exact hnew
  · exact (h t' k' hold).kept (hkept t' hne)

/-- A transaction that has written nothing is well wherever it may stand so. -/
theorem TxnInv.of_clean (hclean : k.Clean) (hholds : k.work.holds = true → db.syncLock = some t)
    (hsound : k.work.Sound db k) : TxnInv me db t k where
  writes ns doc hget := by
    rw [hclean.1] at hget
    cases hget
  entries ns := by
    rw [hclean.2, hclean.1]
    show [] = _
    split <;> rfl
  sorted := by
    rw [hclean.2]
    exact .nil
  range r hr := by
    rw [hclean.2] at hr
    cases hr
  holder hor := hholds (hor.resolve_right fun hne => hne hclean.2)
  sound := hsound

theorem clean_begun (work : Work δ) : (Txn.begun work).Clean := ⟨fun _ => rfl, rfl⟩

/-- A statement that writes nothing leaves a transaction well. -/
theorem TxnInv.moves (h : TxnInv me db t k) (hinv : Inv me db) (hmoves : Moves db k work) :
    TxnInv me db t { k with work } := by
  have hsound := h.sound
  have hholder := h.holder
  have hmem : ∀ {ns : SettingsNamespace} {doc : Document δ}, db.docs.get ns = some doc →
      doc ∈ db.versions ns := fun hget => List.mem_of_getLast? ((hinv.stored _).symm.trans hget)
  -- A request has written nothing before its one write; an upload may have.
  cases hmoves with
  | found hwork hget =>
    rw [hwork] at hsound
    exact .of_clean hsound (fun hfalse => nomatch hfalse) ⟨hsound, hmem hget⟩
  | creating hwork hbase =>
    rw [hwork] at hsound
    exact .of_clean hsound (fun hfalse => nomatch hfalse) ⟨hsound, hbase⟩
  | lost hwork =>
    rw [hwork] at hsound
    exact .of_clean hsound.1 (fun hfalse => nomatch hfalse) hsound.1
  | stale hwork =>
    rw [hwork] at hsound
    exact .of_clean hsound (fun hfalse => nomatch hfalse) hsound
  | winner hwork hget =>
    rw [hwork] at hsound
    exact .of_clean hsound (fun hfalse => nomatch hfalse) ⟨hsound, hmem hget⟩
  | gone hwork hanswer =>
    rw [hwork] at hsound
    refine .of_clean hsound (fun hfalse => nomatch hfalse) ?_
    rcases hanswer with rfl | rfl <;> exact hsound
  | skip hwork =>
    have hentries := h.entries
    rw [hwork] at hsound hholder hentries
    exact { h with
      entries := hentries
      holder := fun _ => hholder (Or.inl rfl)
      sound := hsound }
  | missing hwork hnone =>
    have hentries := h.entries
    rw [hwork] at hsound hholder hentries
    exact { h with
      entries := hentries
      holder := fun _ => hholder (Or.inl rfl)
      sound := ⟨hsound, hnone⟩ }

/-- What a transaction knows before it writes a document. -/
theorem Writes.before (hwrites : Writes db k ns doc work) (h : k.work.Sound db k) :
    k.writes.get ns = none ∧ k.work.unlogged = none ∧ work.unlogged = some ns ∧
      (work.holds = true → k.work.holds = true) := by
  cases hwrites with
  | insert hwork _ =>
    rw [hwork] at h ⊢
    exact ⟨h.1.1 _, rfl, rfl, fun hfalse => nomatch hfalse⟩
  | update hwork _ _ _ =>
    rw [hwork] at h ⊢
    exact ⟨h.1 _, rfl, rfl, fun hfalse => nomatch hfalse⟩
  | item hwork _ =>
    rw [hwork] at h ⊢
    exact ⟨h.2, rfl, rfl, fun _ => rfl⟩

/-- A document is written with the revision after the stored one. -/
theorem Writes.revision (hwrites : Writes db k ns doc work) (h : k.work.Sound db k) :
    doc.revision = db.nextOf ns := by
  cases hwrites with
  | insert hwork hnone =>
    rw [hwork] at h
    rw [Db.nextOf, hnone]
    show Option.elim _ 1 _ = 1
    rw [h.2]
    rfl
  | update hwork hbase hget hrevision =>
    rw [Db.nextOf, hget]
    show Option.elim _ 1 _ = _ + 1
    rw [hbase, hrevision]
    rfl
  | item hwork hnone =>
    rw [Db.nextOf, hnone]
    rfl

/-- Where a transaction stands after it has written a document. -/
theorem Writes.sound (hwrites : Writes db k ns doc work) (h : k.work.Sound db k) :
    work.Sound db { k with work, writes := k.writes.set ns doc } := by
  have hset : ∀ ns', (k.writes.set ns doc).get ns' = if ns' = ns then some doc else k.writes.get ns' :=
    fun ns' => Table.get_set ..
  cases hwrites with
  | insert hwork _ =>
    rw [hwork] at h
    exact ⟨fun ns' => (hset ns').trans (by rw [h.1.1 ns']), h.1.2⟩
  | update hwork _ _ _ =>
    rw [hwork] at h
    exact ⟨fun ns' => (hset ns').trans (by rw [h.1 ns']), h.2⟩
  | @item item _ hwork _ =>
    rw [hwork] at h
    refine ⟨fun ns' doc' hget => ?_, (hset _).trans (if_pos rfl)⟩
    rw [hset] at hget
    split at hget
    · obtain rfl := Option.some.inj hget
      rfl
    · exact h.1 ns' doc' hget

theorem TxnInv.writes_step (h : TxnInv me db t k) (hwrites : Writes db k ns doc work)
    (havailable : db.docLocks.Available t ns) :
    TxnInv me (db.write t k ns doc work) t { k with work, writes := k.writes.set ns doc } := by
  obtain ⟨hfresh, hunlogged, hunlogged', hholds⟩ := hwrites.before h.sound
  have hset : ∀ ns', (k.writes.set ns doc).get ns' = if ns' = ns then some doc else k.writes.get ns' :=
    fun ns' => Table.get_set ..
  refine
    { writes := fun ns' doc' hget => ?_
      entries := fun ns' => ?_
      sorted := h.sorted
      range := h.range
      holder := fun hor => h.holder (hor.imp_left hholds)
      sound := (hwrites.sound h.sound).mono fun _ _ hmem => hmem }
  · have hget : (k.writes.set ns doc).get ns' = some doc' := hget
    rw [hset] at hget
    by_cases hns : ns' = ns
    · subst hns
      rw [if_pos rfl] at hget
      obtain rfl := Option.some.inj hget
      exact ⟨RowLocks.lock_self, hwrites.revision h.sound⟩
    · rw [if_neg hns] at hget
      obtain ⟨hlock, hrevision⟩ := h.writes ns' doc' hget
      exact ⟨RowLocks.lock_of_held hlock havailable, hrevision⟩
  · show settingsOf ns' k.entries =
      if work.unlogged = some ns' then [] else ((k.writes.set ns doc).get ns').toList.map _
    rw [h.entries, hunlogged, hunlogged', hset, if_neg (by simp)]
    by_cases hns : ns' = ns
    · rw [hns, hfresh, if_pos rfl]
      rfl
    · rw [if_neg (fun heq => hns (Option.some.inj heq).symm), if_neg hns]

/-- A change names the document a transaction has still to log, or none. -/
theorem Appends.names {change : Change} (happends : Appends k change work)
    (h : k.work.Sound db k) : k.work.holds = true ∧ work.unlogged = none ∧
      ((change = .other ∧ k.work.unlogged = none) ∨
        ∃ ns doc, change = .settingsDocument ns doc.revision ∧ k.work.unlogged = some ns ∧
          k.writes.get ns = some doc) := by
  cases happends with
  | @put ns payload hwork =>
    rw [hwork] at h ⊢
    exact ⟨rfl, rfl, Or.inr ⟨ns, payload.result, rfl, rfl, (h.1 ns).trans (if_pos rfl)⟩⟩
  | @item item _ hwork =>
    rw [hwork] at h ⊢
    exact ⟨rfl, rfl, Or.inr ⟨item.ns, item.result, rfl, rfl, h.2⟩⟩
  | other hwork =>
    rw [hwork]
    exact ⟨rfl, rfl, Or.inl ⟨rfl, rfl⟩⟩

/-- Where a transaction stands after it has appended a change. -/
theorem Appends.sound {change : Change} {entries : List (UserChangeLog Change)}
    (happends : Appends k change work) (h : k.work.Sound db k) :
    work.Sound db { k with work, entries } := by
  cases happends with
  | put hwork =>
    rw [hwork] at h
    exact ⟨rfl, h.1⟩
  | item hwork =>
    rw [hwork] at h
    exact h.1
  | other hwork =>
    rw [hwork] at h
    exact h

theorem TxnInv.appends (h : TxnInv me db t k) (hinv : Inv me db) {createdAt : Time}
    {change : Change} (happends : Appends k change work) :
    TxnInv me (db.append t k me createdAt change work) t
      { k with
        work, entries := k.entries ++ [⟨db.nextRevision, me, createdAt, change⟩] } := by
  obtain ⟨hholds, hunlogged', hnames⟩ := happends.names h.sound
  refine
    { writes := h.writes
      entries := fun ns => ?_
      sorted := ?_
      range := fun r hr => ?_
      holder := fun _ => h.holder (Or.inl hholds)
      sound := (happends.sound h.sound).mono fun _ _ hmem => hmem }
  · show settingsOf ns (k.entries ++ _) =
      if work.unlogged = some ns then [] else (k.writes.get ns).toList.map _
    have hnever : ¬(none : Option SettingsNamespace) = some ns := nofun
    rw [settingsOf_append, hunlogged', if_neg hnever, h.entries]
    rcases hnames with ⟨rfl, hnone⟩ | ⟨ns₀, doc, rfl, hsome, hget⟩
    · rw [hnone, if_neg hnever]
      exact List.append_nil _
    · rw [hsome]
      by_cases hns : ns₀ = ns
      · subst hns
        rw [if_pos rfl, hget]
        simp [settingsOf, Change.revisionOf]
      · rw [if_neg (fun heq => hns (Option.some.inj heq))]
        simp [settingsOf, Change.revisionOf, hns]
  · rw [List.map_append, List.pairwise_append]
    refine ⟨h.sorted, List.pairwise_singleton _ _, fun a ha b hb => ?_⟩
    obtain ⟨r, hr, rfl⟩ := List.mem_map.mp ha
    obtain rfl := List.mem_singleton.mp hb
    exact (h.range r hr).2.2
  · rcases List.mem_append.mp hr with hold | hlast
    · obtain ⟨hme, hlow, hhigh⟩ := h.range r hold
      exact ⟨hme, hlow, hhigh.trans (Nat.lt_succ_self _)⟩
    · obtain rfl := List.mem_singleton.mp hlast
      exact ⟨rfl, hinv.below, Nat.lt_succ_self _⟩

/-! ### What a commit keeps -/

theorem accepted_append (exchanges exchanges' : List (Exchange δ)) (ns : SettingsNamespace) :
    accepted (exchanges ++ exchanges') ns = accepted exchanges ns ++ accepted exchanges' ns :=
  List.filterMap_append

/-- What a request or an upload that may commit has written. -/
theorem Commits.written {exchanges : List (Exchange δ)} (hcommits : Commits k exchanges)
    (h : k.work.Sound db k) (ns : SettingsNamespace) :
    accepted exchanges ns = (k.writes.get ns).toList ∨
      accepted exchanges ns = [] ∧ ∀ doc, k.writes.get ns = some doc → doc.revision = 1 := by
  cases hcommits with
  | @answered exchange hwork =>
    rw [hwork] at h
    obtain ⟨ns₀, payload, answer⟩ := exchange
    refine Or.inl ?_
    by_cases hns : ns₀ = ns
    · subst hns
      cases answer with
      | ok doc => rw [h.2 ns₀, if_pos rfl]; simp [accepted]
      | conflict server => rw [h.1.1]; simp [accepted]
      | notFound => rw [h.1]; simp [accepted]
      | settingsConflict => rw [h.1]; simp [accepted]
    · have hnone : k.writes.get ns = none := by
        cases answer with
        | ok doc => rw [h.2 ns, if_neg (Ne.symm hns)]
        | conflict server => exact h.1.1 ns
        | notFound => exact h.1 ns
        | settingsConflict => exact h.1 ns
      rw [hnone]
      simp [accepted, hns]
  | upload hwork =>
    rw [hwork] at h
    exact Or.inr ⟨rfl, fun doc hget => h ns doc hget⟩
  | other hwork =>
    rw [hwork] at h
    rw [h ns]
    exact Or.inl rfl

theorem Commits.unlogged {exchanges : List (Exchange δ)} (hcommits : Commits k exchanges) :
    k.work.unlogged = none := by
  cases hcommits with
  | answered hwork => rw [hwork]; rfl
  | upload hwork => rw [hwork]; rfl
  | other hwork => rw [hwork]; rfl

/-- What a request is answered at its commit. -/
theorem Commits.told {exchanges : List (Exchange δ)} (hcommits : Commits k exchanges)
    (h : k.work.Sound db k) : ∀ e ∈ exchanges, e.Sound db := by
  intro e he
  cases hcommits with
  | answered hwork =>
    rw [hwork] at h
    obtain rfl := List.mem_singleton.mp he
    obtain ⟨ns₀, payload, answer⟩ := e
    cases answer with
    | ok doc => exact h.1
    | conflict server => exact h.2
    | notFound => trivial
    | settingsConflict => trivial
  | upload _ => cases he
  | other _ => cases he

theorem Exchange.Sound.mono {e : Exchange δ} (h : e.Sound db)
    (hversions : ∀ ns doc, doc ∈ db.versions ns → doc ∈ db'.versions ns) : e.Sound db' := by
  obtain ⟨ns₀, payload, answer⟩ := e
  cases answer with
  | conflict server => exact hversions _ _ h
  | _ => exact h

variable {exchanges : List (Exchange δ)}

/-- The next version of each document is numbered next. -/
theorem Inv.numbered_commit (h : Inv me db) (hk : TxnInv me db t k) (ns : SettingsNamespace) :
    (db.versions ns ++ (k.writes.get ns).toList).map (·.revision) =
      List.range' 1 (db.versions ns ++ (k.writes.get ns).toList).length := by
  cases hget : k.writes.get ns with
  | none =>
    rw [Option.toList_none, List.append_nil]
    exact h.numbered ns
  | some doc =>
    have hrevision := (hk.writes ns doc hget).2
    rw [h.nextOf] at hrevision
    rw [Option.toList_some, List.map_append, h.numbered, List.length_append, List.length_singleton,
      List.range'_concat, List.map_singleton, hrevision, Nat.one_mul, Nat.add_comm]

theorem Inv.stored_commit (h : Inv me db) (ns : SettingsNamespace) :
    (db.docs.overwriteFrom k.writes fun _ doc => some doc).get ns =
      (db.versions ns ++ (k.writes.get ns).toList).getLast? := by
  rw [Table.get_overwriteFrom, h.stored]
  cases k.writes.get ns with
  | none => simp
  | some doc => simp

/-- A commit's answers and what it has written are told of in one order. -/
theorem Inv.accepted_commit (h : Inv me db) (hk : TxnInv me db t k)
    (hcommits : Commits k exchanges) (ns : SettingsNamespace) :
    db.versions ns ++ (k.writes.get ns).toList = accepted (db.exchanges ++ exchanges) ns ∨
      ∃ first, db.versions ns ++ (k.writes.get ns).toList =
        first :: accepted (db.exchanges ++ exchanges) ns := by
  rw [accepted_append]
  rcases hcommits.written hk.sound ns with hsame | ⟨hnone, hfirst⟩
  · rw [hsame]
    rcases h.answered ns with hall | ⟨first, hall⟩
    · exact Or.inl (by rw [hall])
    · exact Or.inr ⟨first, by rw [hall, List.cons_append]⟩
  · rw [hnone, List.append_nil]
    cases hget : k.writes.get ns with
    | none =>
      rw [Option.toList_none, List.append_nil]
      exact h.answered ns
    | some doc =>
      -- A document an upload brings has no version yet.
      have hrevision := (hk.writes ns doc hget).2
      rw [h.nextOf, hfirst doc hget] at hrevision
      have hnil : db.versions ns = [] := List.eq_nil_of_length_eq_zero (by omega)
      refine Or.inr ⟨doc, ?_⟩
      rcases h.answered ns with hall | ⟨first, hall⟩
      · rw [hnil] at hall ⊢
        rw [← hall]
        rfl
      · rw [hnil] at hall
        cases hall

/-- The newest change a transaction has appended is what it leaves as the current revision. -/
theorem TxnInv.current (h : TxnInv me db t k) (hbelow : db.currentRevision < db.nextRevision)
    (exchanges : List (Exchange δ)) :
    db.currentRevision ≤ (db.commitTxn t k exchanges).currentRevision ∧
      (∀ r ∈ k.entries, r.revision ≤ (db.commitTxn t k exchanges).currentRevision) ∧
      (db.commitTxn t k exchanges).currentRevision < db.nextRevision := by
  show _ ≤ (k.entries.getLast?.map _).getD _ ∧ (∀ r ∈ _, _ ≤ (k.entries.getLast?.map _).getD _) ∧
    (k.entries.getLast?.map _).getD _ < _
  have hsorted := h.sorted
  have hrange := h.range
  rcases List.eq_nil_or_concat k.entries with hnil | ⟨init, last, hlast⟩
  · rw [hnil]
    exact ⟨le_rfl, (fun r hr => nomatch hr), hbelow⟩
  · rw [List.concat_eq_append] at hlast
    rw [hlast] at hsorted hrange ⊢
    rw [List.getLast?_concat, Option.map_some, Option.getD_some]
    obtain ⟨_, hlow, hhigh⟩ := hrange last (List.mem_append_right _ (List.mem_singleton_self _))
    refine ⟨hlow.le, fun r hr => ?_, hhigh⟩
    rcases List.mem_append.mp hr with hinit | hsingle
    · rw [List.map_append, List.pairwise_append] at hsorted
      exact (hsorted.2.2 _ (List.mem_map_of_mem hinit) _ (List.mem_singleton_self _)).le
    · rw [List.mem_singleton.mp hsingle]

theorem Inv.commit (h : Inv me db) (htxn : db.txns t = some k) (hcommits : Commits k exchanges) :
    Inv me (db.commitTxn t k exchanges) := by
  have hk := h.txns t k htxn
  obtain ⟨hcurrent, hentries, hbelow⟩ := hk.current h.below exchanges
  have hmore : ∀ ns doc, doc ∈ db.versions ns → doc ∈ (db.commitTxn t k exchanges).versions ns :=
    fun ns doc hmem => List.mem_append_left _ hmem
  exact
    { numbered := h.numbered_commit hk
      stored := h.stored_commit
      told := fun ns => by
        show settingsOf ns (db.everLogged ++ k.entries) = (db.versions ns ++ _).map _
        rw [settingsOf_append, h.told, hk.entries, hcommits.unlogged, if_neg nofun, List.map_append]
      sorted := by
        show ((db.everLogged ++ k.entries).map _).Pairwise _
        rw [List.map_append, List.pairwise_append]
        refine ⟨h.sorted, hk.sorted, fun a ha b hb => ?_⟩
        obtain ⟨r, hr, rfl⟩ := List.mem_map.mp ha
        obtain ⟨r', hr', rfl⟩ := List.mem_map.mp hb
        exact (h.bounded r hr).2.trans_lt (hk.range r' hr').2.1
      bounded := fun r hr => by
        rcases List.mem_append.mp hr with hold | hnew
        · exact ⟨(h.bounded r hold).1, (h.bounded r hold).2.trans hcurrent⟩
        · exact ⟨(hk.range r hnew).1, hentries r hnew⟩
      below := hbelow
      compacted := h.compacted.trans hcurrent
      log := by
        show db.log ++ k.entries =
          (db.everLogged ++ k.entries).filter fun r => db.compactedRevision < r.revision
        have hkept : k.entries.filter (fun r => db.compactedRevision < r.revision) = k.entries := by
          refine List.filter_eq_self.mpr fun r hr => decide_eq_true ?_
          exact h.compacted.trans_lt (hk.range r hr).2.1
        rw [List.filter_append, ← h.log]
        exact congrArg _ hkept.symm
      answered := h.accepted_commit hk hcommits
      exchanges := fun e he => by
        rcases List.mem_append.mp he with hold | hnew
        · exact (h.exchanges e hold).mono hmore
        · exact (hcommits.told hk.sound e hnew).mono hmore
      txns := fun t' k' hk' => by
        rcases update_cases hk' with ⟨_, hnone⟩ | ⟨hne, hold⟩
        · cases hnone
        · exact (h.txns t' k' hold).kept (kept_commit hne hk exchanges) }

/-! ### What a run keeps -/

/-- A step that changes neither documents nor locks leaves every transaction what it has. -/
theorem Kept.of_eq (hdocs : db'.docs = db.docs) (hlocks : db'.docLocks = db.docLocks)
    (hsync : db'.syncLock = db.syncLock) (hcurrent : db'.currentRevision = db.currentRevision)
    (hnext : db.nextRevision ≤ db'.nextRevision) (hversions : db'.versions = db.versions) :
    Kept t db db' where
  locks ns h := ⟨by rw [hlocks, h], by rw [hdocs]⟩
  sync h := ⟨hsync.trans h, hcurrent⟩
  nextRevision := hnext
  versions ns doc h := by rwa [hversions]

/-- A free sync state is taken from nobody. -/
theorem kept_takeSync (hfree : db.syncLock = none) :
    Kept t db { db with syncLock := some t' } :=
  { Kept.refl t db with
    sync := fun h => by
      rw [hfree] at h
      cases h }

/-- What the client does is no business of the server's. -/
theorem Inv.setReplica (h : Inv me db) (replica : Replica δ) : Inv me { db with replica } :=
  { h with txns := fun t k htxn => (h.txns t k htxn).kept (.of_eq rfl rfl rfl rfl le_rfl rfl) }

/-- Every step keeps what holds of every state. -/
theorem Inv.step (h : Inv me db) (hstep : step me db l = some db') : Inv me db' := by
  cases step_cases hstep with
  | put hnone =>
    refine { h with txns := txns_set h.txns rfl (fun t' _ => kept_setTxn (.refl t' db) _) ?_ }
    exact .of_clean (clean_begun _) (fun hfalse => nomatch hfalse) (clean_begun _)
  | beginLocked hnone hfree hwork =>
    refine { h with txns := txns_set h.txns rfl (fun _ _ => kept_setTxn (kept_takeSync hfree) _) ?_ }
    refine .of_clean (clean_begun _) (fun _ => rfl) ?_
    rcases hwork with rfl | ⟨items, rfl⟩
    · exact fun _ => rfl
    · exact fun _ _ hget => nomatch hget
  | @move _ t k work htxn hmoves =>
    have hkept : ∀ t', Kept t' db (db.setTxn t { k with work }) :=
      fun t' => kept_setTxn (.refl t' db) _
    refine { h with txns := txns_set h.txns rfl (fun t' _ => hkept t') ?_ }
    exact ((h.txns _ _ htxn).moves h hmoves).kept (hkept t)
  | lockSyncState htxn hwork hfree =>
    have hk := h.txns _ _ htxn
    have hentries := hk.entries
    have hsound := hk.sound
    rw [hwork] at hentries hsound
    refine { h with txns := txns_set h.txns rfl (fun _ _ => kept_setTxn (kept_takeSync hfree) _) ?_ }
    exact { hk with entries := hentries, holder := fun _ => rfl, sound := hsound }
  | write htxn havailable hwrites =>
    refine { h with txns := txns_set h.txns rfl (fun t' _ => kept_setTxn ?_ _) ?_ }
    · exact { Kept.refl t' db with
        locks := fun ns hheld => ⟨RowLocks.lock_of_held hheld havailable, rfl⟩ }
    · exact (h.txns _ _ htxn).writes_step hwrites havailable
  | append htxn happends =>
    refine { h with
      below := h.below.trans (Nat.lt_succ_self _)
      txns := txns_set h.txns rfl (fun t' _ => kept_setTxn ?_ _) ?_ }
    · exact .of_eq rfl rfl rfl rfl (Nat.le_succ _) rfl
    · exact (h.txns _ _ htxn).appends h happends
  | commit htxn hcommits => exact h.commit htxn hcommits
  | @rollback t =>
    refine { h with txns := fun t' k' hk' => ?_ }
    rcases update_cases hk' with ⟨_, hnone⟩ | ⟨hne, hold⟩
    · cases hnone
    · exact (h.txns t' k' hold).kept (kept_close hne db)
  | @purge watermark hfree hle =>
    refine { h with
      compacted := max_le h.compacted hle
      log := ?_
      txns := fun t k htxn => (h.txns t k htxn).kept (.of_eq rfl rfl rfl rfl le_rfl rfl) }
    show db.log.filter _ = db.everLogged.filter fun r => max db.compactedRevision watermark < r.revision
    rw [h.log, List.filter_filter]
    refine List.filter_congr fun r _ => ?_
    rw [← Bool.decide_and]
    refine decide_eq_decide.mpr ?_
    rw [max_lt_iff, and_comm]
  | fullSync => exact h.setReplica _
  | expire _ => exact h.setReplica _
  | readState _ => exact h.setReplica _
  | readRows _ _ => exact h.setReplica _
  | readDocument => exact h.setReplica _

theorem inv_initial : Inv me (Db.initial : Db δ) where
  numbered _ := rfl
  stored _ := rfl
  told _ := rfl
  sorted := .nil
  bounded _ hr := nomatch hr
  below := Nat.zero_lt_one
  compacted := le_rfl
  log := rfl
  answered _ := Or.inl rfl
  exchanges _ he := nomatch he
  txns _ _ htxn := nomatch htxn

theorem inv_of_run (hrun : FreeRun (step me) Db.initial labels db) : Inv me db :=
  hrun.invariant (Inv me) inv_initial fun _ _ _ hinv _ hstep => hinv.step hstep

/-- In every state a run can reach, each document's versions are numbered one by one and the last
is the stored one; the change log has named each once and in order; the accepted requests are the
versions in order, after the one an upload may have brought; and a refused request is shown a
version. -/
theorem documents_exact (hrun : FreeRun (step me) (Db.initial : Db δ) labels db) :
    (∀ ns, (db.versions ns).map (·.revision) = List.range' 1 (db.versions ns).length ∧
      db.docs.get ns = (db.versions ns).getLast? ∧
      settingsOf ns db.everLogged = (db.versions ns).map (·.revision) ∧
      (db.versions ns = accepted db.exchanges ns ∨
        ∃ first, db.versions ns = first :: accepted db.exchanges ns)) ∧
      (db.everLogged.map (·.revision)).Pairwise (· < ·) ∧
      db.log = (db.everLogged.filter fun r => db.compactedRevision < r.revision) ∧
      ∀ e ∈ db.exchanges,
        match e.answer with
        | .ok doc => doc = e.payload.result
        | .conflict server => server ∈ db.versions e.ns
        | _ => True := by
  have hinv := inv_of_run hrun
  refine ⟨fun ns => ?_, hinv.sorted, hinv.log, hinv.exchanges⟩
  exact ⟨hinv.numbered ns, hinv.stored ns, hinv.told ns, hinv.answered ns⟩

/-- Two devices create one document, and the one that comes second updates it after all, while a
first upload brings another document and finds the first there. -/
def racing : List (Label String) :=
  [.put 1 .appearance ⟨1, "dark", none⟩, .put 2 .appearance ⟨1, "light", none⟩, .find 1, .find 2,
    .insert 1, .lockSyncState 1, .appendChange 1 10, .commit 1, .insert 2, .findWinner 2, .commit 2,
    .put 3 .appearance ⟨1, "light", some 1⟩, .update 3, .lockSyncState 3, .appendChange 3 20,
    .commit 3,
    .beginUpload 4 [⟨.appearance, 1, "system"⟩, ⟨.language, 1, "en"⟩],
    .findItem 4, .findItem 4, .insertItem 4, .logItem 4 30, .commit 4]

/-- The race leaves two versions, and the request that lost it has been shown the first. -/
theorem documents_exact_of_racing :
    ∃ db, FreeRun (step 7) (Db.initial : Db String) racing db ∧
      db.docs.get .appearance = some ⟨1, "light", 2⟩ ∧
      (db.versions .appearance = accepted db.exchanges .appearance ∨
        ∃ first, db.versions .appearance = first :: accepted db.exchanges .appearance) := by
  have hexec : (exec (step 7) (Db.initial : Db String) racing).map
      (fun db => db.docs.get .appearance) = some (some ⟨1, "light", 2⟩) := by
    decide +kernel
  obtain ⟨db, hdb, hget⟩ := Option.map_eq_some_iff.mp hexec
  have hrun := run_of_exec hdb
  exact ⟨db, hrun, hget, ((documents_exact hrun).1 .appearance).2.2.2⟩

end TigerDuck.Sync.SettingsDocuments
