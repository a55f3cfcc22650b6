import Mathlib.Tactic.Linarith
import TigerDuck.TlsPins.PinSets
import TigerDuck.Transition.Run

/-!
# Pin documents are safe to publish

The apps refuse a document that goes backwards, and a set with no pins fails every chain on its
hosts. Whatever the order of the watcher's runs, the operator's actions and the re-signs, with and
without a key:

- the serials of the documents increase in the order of their commits (`Follows`);
- every entry lists pins, and each of them had been published by its set (`Backed`);
- the expiry of a set never goes back from a document to a later one (`Follows`);
- a pin that the watcher adds comes from a certificate after the leaf (`watch_adds`).

`Sound` is the invariant. A transaction keeps it in two moves: it rewrites sets so that each still
has a published pin and no earlier expiry (`Sound.modify`), and it signs entries that may follow
every document so far (`Sound.publish`), which the stored sets and those of the current document
may (`Signable.stored`, `Signable.current`).
-/

namespace TigerDuck.TlsPins

open Relational Transition

/-- `b` may be signed after `a`. -/
def Follows (a b : Signing) : Prop :=
  a.document.serial < b.document.serial ∧
    ∀ e ∈ a.document.pinSets, ∀ e' ∈ b.document.pinSets, e.id = e'.id → e.expiresAt ≤ e'.expiresAt

/-- The entry has pins, and each was one that its set published at one of the signings. -/
def Backed (signings : List Signing) (e : SetEntry) : Prop :=
  e.pins ≠ [] ∧ ∀ spki ∈ e.pins, ∃ signing ∈ signings, ∃ s,
    signing.sets.get e.id = some s ∧ spki ∈ s.publishedPins

theorem Backed.mono {signings signings' : List Signing} {e : SetEntry} (h : Backed signings e)
    (hsub : signings ⊆ signings') : Backed signings' e := by
  refine ⟨h.1, fun spki hspki => ?_⟩
  obtain ⟨signing, hmem, hset⟩ := h.2 spki hspki
  exact ⟨signing, hsub hmem, hset⟩

/-- The state between two transactions. -/
structure Sound (db : Db) : Prop where
  /-- Every set has a published pin. -/
  published : db.sets.Forall fun _ s => s.publishedPins ≠ []
  /-- The documents are signed in order. -/
  follows : db.signings.Pairwise Follows
  /-- The pins of a document were published by then. -/
  backed : ∀ before signing, before ++ [signing] <+: db.signings →
    ∀ e ∈ signing.document.pinSets, Backed (before ++ [signing]) e
  /-- A set stays stored, and its expiry is no earlier than that of any document. -/
  stored : ∀ signing ∈ db.signings, ∀ e ∈ signing.document.pinSets, ∃ s,
    db.sets.get e.id = some s ∧ e.expiresAt ≤ timestamp s.expiresAt
  /-- A document lists a set once. -/
  ids_nodup : ∀ signing ∈ db.signings, (signing.document.pinSets.map (·.id)).Nodup

/-- Without documents there is nothing to check but the sets. -/
theorem Sound.initial {sets : Table String TlsPinSet}
    (h : sets.Forall fun _ s => s.publishedPins ≠ []) : Sound ⟨sets, []⟩ where
  published := h
  follows := List.Pairwise.nil
  backed := fun before signing hstarts => by simp at hstarts
  stored := fun _ hmem => (nomatch hmem)
  ids_nodup := fun _ hmem => (nomatch hmem)

/-! ### Sets are rewritten -/

theorem timestamp_mono {t t' : Time} (h : t ≤ t') : timestamp t ≤ timestamp t' :=
  Nat.div_le_div_right h

/-- What a rewrite of a set keeps: a published pin, and an expiry no earlier. -/
def Keeps (s s' : TlsPinSet) : Prop :=
  (s.publishedPins ≠ [] → s'.publishedPins ≠ []) ∧ s.expiresAt ≤ s'.expiresAt

theorem Keeps.refl (s : TlsPinSet) : Keeps s s := ⟨id, le_rfl⟩

/-- A rewrite that leaves the published pins and the expiry as they were. -/
theorem Keeps.of_eq {s s' : TlsPinSet} (hpins : s'.publishedPins = s.publishedPins)
    (hexpiry : s'.expiresAt = s.expiresAt) : Keeps s s' :=
  ⟨fun h => hpins ▸ h, hexpiry ▸ le_rfl⟩

theorem Sound.modify {db : Db} (h : Sound db) {f : String → TlsPinSet → TlsPinSet}
    (hf : ∀ id s, db.sets.get id = some s → Keeps s (f id s)) :
    Sound { db with sets := db.sets.modify f } where
  published := h.published.modify fun id s hget hpub => (hf id s hget).1 hpub
  follows := h.follows
  backed := h.backed
  stored := by
    intro signing hmem e he
    obtain ⟨s, hget, hexpiry⟩ := h.stored signing hmem e he
    refine ⟨f e.id s, by simp [hget], hexpiry.trans ?_⟩
    exact timestamp_mono (hf e.id s hget).2
  ids_nodup := h.ids_nodup

/-- One set is rewritten. -/
theorem Sound.updateSet {db : Db} (h : Sound db) {id : String} {f : TlsPinSet → TlsPinSet}
    (hf : ∀ s, db.sets.get id = some s → Keeps s (f s)) : Sound (db.updateSet id f) := by
  refine h.modify fun k s hget => ?_
  split
  next hk => exact hf s (hk ▸ hget)
  next => exact Keeps.refl s

/-! ### A document is signed -/

/-- Entries that may be signed after every document so far. -/
structure Signable (db : Db) (entries : List SetEntry) : Prop where
  ids_nodup : (entries.map (·.id)).Nodup
  pins : ∀ e ∈ entries, e.pins ≠ []
  backed : ∀ e ∈ entries, ∀ spki ∈ e.pins,
    (∃ s, db.sets.get e.id = some s ∧ spki ∈ s.publishedPins) ∨
      ∃ signing ∈ db.signings, ∃ s, signing.sets.get e.id = some s ∧ spki ∈ s.publishedPins
  stored : ∀ e ∈ entries, ∃ s, db.sets.get e.id = some s ∧ e.expiresAt ≤ timestamp s.expiresAt
  later : ∀ signing ∈ db.signings, ∀ e ∈ signing.document.pinSets, ∀ e' ∈ entries,
    e.id = e'.id → e.expiresAt ≤ e'.expiresAt

/-- The current document is the document of a signing, and none has a higher serial. -/
theorem currentDocument_spec {db : Db} {document : TlsPinDocument}
    (h : db.currentDocument = some document) :
    (∃ signing ∈ db.signings, signing.document = document) ∧
      ∀ signing ∈ db.signings, signing.document.serial ≤ document.serial := by
  constructor
  · obtain ⟨signing, hmem, heq⟩ := List.mem_map.mp (List.argmax_mem h)
    exact ⟨signing, hmem, heq⟩
  · intro signing hmem
    exact List.le_of_mem_argmax (List.mem_map_of_mem hmem) h

/-- There is a current document once anything is signed. -/
theorem currentDocument_eq_none {db : Db} (h : db.currentDocument = none) : db.signings = [] := by
  have hnil := List.argmax_eq_none.mp h
  exact List.map_eq_nil_iff.mp hnil

theorem mem_storedEntries {db : Db} {e : SetEntry} :
    e ∈ db.storedEntries ↔ ∃ s, db.sets.get e.id = some s ∧ setEntry e.id s = e := by
  simp only [Db.storedEntries, List.mem_map, (List.perm_insertionSort _ _).mem_iff, Prod.exists]
  constructor
  · rintro ⟨id, s, hrow, rfl⟩
    exact ⟨s, (Table.get_eq_some_iff _ _ _).mpr hrow, rfl⟩
  · rintro ⟨s, hget, heq⟩
    exact ⟨e.id, s, (Table.get_eq_some_iff _ _ _).mp hget, heq⟩

/-- The stored sets may always be signed. -/
theorem Signable.stored_entries {db : Db} (h : Sound db) : Signable db db.storedEntries where
  ids_nodup := by
    have hperm := List.perm_insertionSort (fun a b => a.1 ≤ b.1) db.sets.rows
    have hids : (db.storedEntries.map (·.id)).Perm (db.sets.rows.map Prod.fst) := by
      simp only [Db.storedEntries, List.map_map]
      exact hperm.map _
    exact hids.nodup_iff.mpr db.sets.keys_nodup
  pins := by
    intro e he
    obtain ⟨s, hget, heq⟩ := mem_storedEntries.mp he
    rw [← heq]
    exact h.published e.id s hget
  backed := by
    intro e he spki hspki
    obtain ⟨s, hget, heq⟩ := mem_storedEntries.mp he
    refine Or.inl ⟨s, hget, ?_⟩
    rw [← heq] at hspki
    exact hspki
  stored := by
    intro e he
    obtain ⟨s, hget, heq⟩ := mem_storedEntries.mp he
    refine ⟨s, hget, ?_⟩
    rw [← heq]
    exact le_rfl
  later := by
    intro signing hmem e he e' he' hid
    obtain ⟨s, hget, hexpiry⟩ := h.stored signing hmem e he
    obtain ⟨s', hget', heq⟩ := mem_storedEntries.mp he'
    obtain rfl : s = s' := Option.some.inj (hget.symm.trans (hid ▸ hget'))
    rw [← heq]
    exact hexpiry

/-- The entries of the current document may be signed again: no document is later. -/
theorem Signable.current {db : Db} (h : Sound db) {document : TlsPinDocument}
    (hcurrent : db.currentDocument = some document) : Signable db document.pinSets := by
  obtain ⟨⟨last, hlast, rfl⟩, hmax⟩ := currentDocument_spec hcurrent
  obtain ⟨before, after, hsplit⟩ := List.append_of_mem hlast
  have hstarts : before ++ [last] <+: db.signings := ⟨after, by simp [hsplit]⟩
  have hbacked := h.backed before last hstarts
  refine
    { ids_nodup := h.ids_nodup last hlast
      pins := fun e he => (hbacked e he).1
      backed := ?_
      stored := h.stored last hlast
      later := ?_ }
  · intro e he spki hspki
    obtain ⟨signing, hmem, hset⟩ := (hbacked e he).2 spki hspki
    exact Or.inr ⟨signing, hstarts.subset hmem, hset⟩
  · intro signing hmem e he e' he' hid
    rw [hsplit] at hmem
    have hpairs := hsplit ▸ h.follows
    obtain ⟨_, hrest, hcross⟩ := List.pairwise_append.mp hpairs
    rcases List.mem_append.mp hmem with hbefore | hafter
    · exact (hcross signing hbefore last List.mem_cons_self).2 e he e' he' hid
    · rcases List.mem_cons.mp hafter with rfl | hafter
      -- One document lists a set once.
      · obtain rfl := List.inj_on_of_nodup_map (h.ids_nodup signing hlast) he he' hid
        exact le_rfl
      · have hlt := (List.rel_of_pairwise_cons hrest hafter).1
        exact absurd (hmax signing (hsplit ▸ hmem)) (not_le.mpr hlt)

/-- Signing what may be signed. -/
theorem Sound.publish {db : Db} (h : Sound db) (pinSets : Option (List SetEntry))
    (hentries : Signable db (pinSets.getD db.storedEntries)) (keyId reason : String) (now : Time) :
    Sound (db.publish keyId reason pinSets now) where
  published := h.published
  follows := by
    show (db.signings ++ [_]).Pairwise Follows
    refine List.pairwise_append.mpr ⟨h.follows, List.pairwise_singleton _ _, ?_⟩
    intro signing hmem new hnew
    obtain rfl := List.mem_singleton.mp hnew
    refine ⟨lt_of_lt_of_le ?_ (le_max_left _ _), hentries.later signing hmem⟩
    cases hcurrent : db.currentDocument with
    | none => simp [currentDocument_eq_none hcurrent] at hmem
    | some document => exact Nat.lt_succ_of_le ((currentDocument_spec hcurrent).2 signing hmem)
  backed := by
    intro before signing hstarts e he
    rcases List.prefix_concat_iff.mp hstarts with heq | hold
    · obtain ⟨rfl, hlast⟩ := List.append_inj' heq rfl
      obtain rfl := List.singleton_inj.mp hlast
      refine ⟨hentries.pins e he, fun spki hspki => ?_⟩
      rcases hentries.backed e he spki hspki with hnow | ⟨old, hold, hset⟩
      · exact ⟨_, List.mem_append_right _ List.mem_cons_self, hnow⟩
      · exact ⟨old, List.mem_append_left _ hold, hset⟩
    · exact h.backed before signing hold e he
  stored := by
    intro signing hmem e he
    rcases List.mem_append.mp hmem with hold | hnew
    · exact h.stored signing hold e he
    · obtain rfl := List.mem_singleton.mp hnew
      exact hentries.stored e he
  ids_nodup := by
    intro signing hmem
    rcases List.mem_append.mp hmem with hold | hnew
    · exact h.ids_nodup signing hold
    · obtain rfl := List.mem_singleton.mp hnew
      exact hentries.ids_nodup

/-- The stored sets are signed. -/
theorem Sound.publish_stored {db : Db} (h : Sound db) (keyId reason : String) (now : Time) :
    Sound (db.publish keyId reason none now) :=
  h.publish none (Signable.stored_entries h) keyId reason now

/-- The current document is signed again. -/
theorem Sound.publish_current {db : Db} (h : Sound db) {document : TlsPinDocument}
    (hcurrent : db.currentDocument = some document) (keyId reason : String) (now : Time) :
    Sound (db.publish keyId reason (some document.pinSets) now) :=
  h.publish (some document.pinSets) (Signable.current h hcurrent) keyId reason now

/-! ### The watcher -/

@[simp]
theorem seenPin_spki (seen : List String) (seenAt : Nat) (pin : Pin) :
    (Db.seenPin seen seenAt pin).spki = pin.spki := by
  unfold Db.seenPin
  split <;> rfl

@[simp]
theorem seenPin_pending (seen : List String) (seenAt : Nat) (pin : Pin) :
    (Db.seenPin seen seenAt pin).pending = pin.pending := by
  unfold Db.seenPin
  split <;> rfl

/-- The watcher takes no pin off a set: it adds to those it finds. -/
theorem apply_pins (s : TlsPinSet) (target : String) (result : Probe) (now : Time) :
    ∃ mark : Pin → Pin, (∀ pin, (mark pin).spki = pin.spki ∧ (mark pin).pending = pin.pending) ∧
      (Db.apply s target result now).pins = s.pins.map mark ++
        if result.status = .trusted then Db.addedPins s result.chain (timestamp now) else [] := by
  by_cases htrusted : result.status = .trusted
  · refine ⟨Db.seenPin (result.chain.map (·.spki)) (timestamp now), ?_, ?_⟩
    · exact fun pin => ⟨seenPin_spki _ _ pin, seenPin_pending _ _ pin⟩
    · simp [Db.apply, htrusted]
  · exact ⟨id, fun _ => ⟨rfl, rfl⟩, by simp [Db.apply, htrusted]⟩

theorem apply_keeps (s : TlsPinSet) (target : String) (result : Probe) (now : Time) :
    Keeps s (Db.apply s target result now) := by
  obtain ⟨mark, hmark, hpins⟩ := apply_pins s target result now
  refine ⟨fun hpub hnil => hpub ?_, le_rfl⟩
  rw [TlsPinSet.publishedPins, List.map_eq_nil_iff, List.filter_eq_nil_iff] at hnil ⊢
  intro pin hpin
  have hmem : mark pin ∈ (Db.apply s target result now).pins := by
    rw [hpins]
    exact List.mem_append_left _ (List.mem_map_of_mem hpin)
  rw [← (hmark pin).2]
  exact hnil (mark pin) hmem

/-- The results of the hosts, one after the other. -/
theorem Sound.applyResults {db : Db} (h : Sound db) (results : List (String × String × Probe))
    (now : Time) : Sound { db with sets := results.foldl (Db.applyResult now) db.sets } := by
  obtain ⟨sets, signings⟩ := db
  induction results generalizing sets with
  | nil => exact h
  | cons r results ih =>
    refine ih (Db.applyResult now sets r) (h.modify fun id s _ => ?_)
    split
    · exact apply_keeps s r.2.1 r.2.2 now
    · exact Keeps.refl s

theorem Sound.runPinWatch {db : Db} (h : Sound db) (results : List (String × String × Probe))
    (signer : Option String) (now : Time) : Sound (db.runPinWatch results signer now) := by
  have hresults := h.applyResults results now
  unfold Db.runPinWatch
  dsimp only
  split
  next keyId document hcurrent =>
    split
    · exact hresults.publish_stored keyId "watcher" now
    · exact hresults
  next => exact hresults

theorem Sound.ensureCurrentDocument {db : Db} (h : Sound db) (signer : Option String)
    (now : Time) : Sound (db.ensureCurrentDocument signer now) := by
  unfold Db.ensureCurrentDocument
  split
  next => exact h
  next keyId hnone => exact h.publish_stored keyId "initial" now
  next keyId document hcurrent =>
    split
    · exact h.publish_current hcurrent keyId "resign" now
    · exact h

/-! ### The operator's actions -/

/-- Nothing is signed, or the stored sets are. -/
theorem Sound.finish {db : Db} (h : Sound db) (signer : Option String) (action : String)
    (publishNow : Bool) (now : Time) :
    Sound (db.finish signer action publishNow none now).1 := by
  unfold Db.finish
  split
  next keyId => exact h.publish_stored keyId _ now
  next => exact h

/-- An action on a set: it is refused without one, or goes on with the one it has locked. -/
theorem Sound.after_locked {db : Db} (h : Sound db) {id : String}
    {action : TlsPinSet → Except HttpError (Db × Option Nat)}
    (haction : ∀ s, db.sets.get id = some s → Sound (db.after (action s))) :
    Sound (db.after (db.lockedSet id >>= action)) := by
  unfold Db.lockedSet
  cases hget : db.sets.get id with
  | none => exact h
  | some s => exact haction s hget

/-- The set is rewritten, and the stored sets go out when that is asked for. -/
theorem Sound.after_rewrite {db : Db} (h : Sound db) {id : String} {f : TlsPinSet → TlsPinSet}
    {signer : Option String} {action : String} {publishNow : Bool} {now : Time}
    (hf : ∀ s, db.sets.get id = some s → Keeps s (f s)) :
    Sound (db.after (.ok ((db.updateSet id f).finish signer action publishNow none now))) :=
  (h.updateSet hf).finish signer action publishNow now

theorem Sound.addPin {db : Db} (h : Sound db) (id spki label : String) (signer : Option String)
    (now : Time) : Sound (db.after (db.addPin id spki label signer now)) := by
  refine h.after_locked fun s _ => ?_
  dsimp only [bind, Except.bind]
  split
  · exact h
  · refine h.after_rewrite fun s _ => ⟨fun _ => ?_, le_rfl⟩
    simp [TlsPinSet.publishedPins]

/-- The last published pin of a set stays. -/
theorem Sound.removePin {db : Db} (h : Sound db) (id spki : String) (signer : Option String)
    (now : Time) : Sound (db.after (db.removePin id spki signer now)) := by
  refine h.after_locked fun s hget => ?_
  dsimp only [bind, Except.bind]
  split
  · exact h
  split
  · exact h
  next hlast =>
    refine h.after_rewrite fun s' hget' => ⟨fun _ => ?_, le_rfl⟩
    obtain rfl : s = s' := Option.some.inj (hget.symm.trans hget')
    have hleft : (s.pins.filter (·.spki ≠ spki)).any (fun pin => !pin.pending) = true := by
      simpa using hlast
    obtain ⟨pin, hpin, hpending⟩ := List.any_eq_true.mp hleft
    exact List.ne_nil_of_mem (List.mem_map_of_mem (List.mem_filter.mpr ⟨hpin, hpending⟩))

theorem Sound.setMonitoredHosts {db : Db} (h : Sound db) (id : String) (hosts : List String)
    (refusal : Option String) (signer : Option String) (now : Time) :
    Sound (db.after (db.setMonitoredHosts id hosts refusal signer now)) := by
  refine h.after_locked fun s _ => ?_
  cases refusal with
  | some detail => exact h
  | none => exact h.after_rewrite fun s _ => Keeps.of_eq rfl rfl

/-- An expiry only moves on. -/
theorem Sound.extendExpiry {db : Db} (h : Sound db) (id : String) (expiresAt : Time)
    (signer : Option String) (now : Time) :
    Sound (db.after (db.extendExpiry id expiresAt signer now)) := by
  refine h.after_locked fun s hget => ?_
  dsimp only [bind, Except.bind]
  split
  · exact h
  next hlater =>
    split
    · exact h
    · refine h.after_rewrite fun s' hget' => ⟨fun hpub => hpub, ?_⟩
      obtain rfl : s = s' := Option.some.inj (hget.symm.trans hget')
      exact (not_le.mp hlater).le

theorem Sound.setAutoPublish {db : Db} (h : Sound db) (id : String) (enabled : Bool)
    (signer : Option String) (now : Time) :
    Sound (db.after (db.setAutoPublish id enabled signer now)) :=
  h.after_locked fun _ _ => h.after_rewrite fun _ _ => Keeps.of_eq rfl rfl

@[simp]
theorem approvePin_spki (shown : List String) (pin : Pin) :
    (Db.approvePin shown pin).spki = pin.spki := by
  unfold Db.approvePin
  split <;> rfl

/-- Approving pins takes none back. -/
theorem approve_keeps (s : TlsPinSet) (shown : List String) :
    Keeps s { s with pins := s.pins.map (Db.approvePin shown) } := by
  refine ⟨fun hpub hnil => hpub ?_, le_rfl⟩
  rw [TlsPinSet.publishedPins, List.map_eq_nil_iff, List.filter_eq_nil_iff] at hnil ⊢
  intro pin hpin hpublished
  refine hnil (Db.approvePin shown pin) (List.mem_map_of_mem hpin) ?_
  unfold Db.approvePin
  split
  · rfl
  · exact hpublished

/-- Without a key an action that must sign is refused. -/
theorem Sound.after_signer {db : Db} (h : Sound db) {signer : Option String}
    {action : Except HttpError (Db × Option Nat)} (haction : Sound (db.after action)) :
    Sound (db.after (Db.requireSigner signer >>= fun _ => action)) := by
  cases signer with
  | none => exact h
  | some keyId => exact haction

theorem Sound.publishDocument {db : Db} (h : Sound db) (approve : List (String × List String))
    (signer : Option String) (now : Time) :
    Sound (db.after (db.publishDocument approve signer now)) := by
  refine h.after_signer (Sound.finish (h.modify fun id s _ => ?_) signer "publish" true now)
  dsimp only
  split
  · exact approve_keeps s _
  · exact Keeps.refl s

theorem Sound.resignDocument {db : Db} (h : Sound db) (signer : Option String) (now : Time) :
    Sound (db.after (db.resignDocument signer now)) := by
  refine h.after_signer ?_
  cases hcurrent : db.currentDocument with
  | none => exact h
  | some document =>
    cases signer with
    | none => exact h
    | some keyId => exact h.publish_current hcurrent keyId _ now

/-! ### Runs -/

/-- Every transaction keeps the sets publishable and the documents in order. -/
theorem Sound.after_step {db db' : Db} {l : Label} (h : Sound db) (hstep : step db l = some db') :
    Sound db' := by
  cases l with
  | watch results signer now =>
    obtain rfl := Option.some.inj hstep
    exact h.runPinWatch results signer now
  | ensureCurrent signer now =>
    obtain rfl := Option.some.inj hstep
    exact h.ensureCurrentDocument signer now
  | addPin id spki label signer now =>
    obtain rfl := Option.some.inj hstep
    exact h.addPin id spki label signer now
  | removePin id spki signer now =>
    obtain rfl := Option.some.inj hstep
    exact h.removePin id spki signer now
  | setMonitoredHosts id hosts refusal signer now =>
    obtain rfl := Option.some.inj hstep
    exact h.setMonitoredHosts id hosts refusal signer now
  | extendExpiry id expiresAt signer now =>
    obtain rfl := Option.some.inj hstep
    exact h.extendExpiry id expiresAt signer now
  | setAutoPublish id enabled signer now =>
    obtain rfl := Option.some.inj hstep
    exact h.setAutoPublish id enabled signer now
  | publish approve signer now =>
    obtain rfl := Option.some.inj hstep
    exact h.publishDocument approve signer now
  | resign signer now =>
    obtain rfl := Option.some.inj hstep
    exact h.resignDocument signer now

theorem sound_of_run {sets : Table String TlsPinSet} {ls : List Label} {db : Db}
    (hsets : sets.Forall fun _ s => s.publishedPins ≠ []) (hrun : FreeRun step ⟨sets, []⟩ ls db) :
    Sound db :=
  hrun.invariant Sound (Sound.initial hsets) fun _ _ _ h _ hstep => h.after_step hstep

/-! ### What the watcher pins -/

/-- A key of a certificate after the leaf, in a trusted chain found at a host of the set. -/
def IssuerKey (results : List (String × String × Probe)) (id : String) (s : TlsPinSet)
    (spki : String) : Prop :=
  ∃ r ∈ results, r.1 = id ∧ r.2.1 ∈ s.monitoredHosts ∧ r.2.2.status = .trusted ∧
    ∃ c ∈ r.2.2.chain.tail, c.spki = spki

theorem IssuerKey.mono {results results' : List (String × String × Probe)} {id : String}
    {s : TlsPinSet} {spki : String} (h : IssuerKey results id s spki)
    (hsub : results ⊆ results') : IssuerKey results' id s spki := by
  obtain ⟨r, hmem, hrest⟩ := h
  exact ⟨r, hsub hmem, hrest⟩

theorem mem_addedPins {s : TlsPinSet} {chain : List Certificate} {seenAt : Nat} {pin : Pin}
    (h : pin ∈ Db.addedPins s chain seenAt) : ∃ c ∈ chain.tail, c.spki = pin.spki := by
  unfold Db.addedPins at h
  dsimp only at h
  split at h
  next => cases h
  next =>
    -- Every pin added so far is that of a certificate of the chain.
    revert h
    refine List.foldlRecOn (motive := fun added => pin ∈ added → ∃ c ∈ chain.tail,
      c.spki = pin.spki) chain.tail _ (fun hnil => nomatch hnil) ?_
    intro added ih c hc hpin
    split at hpin
    next => exact ih hpin
    next =>
      rcases List.mem_append.mp hpin with hold | hnew
      · exact ih hold
      · obtain rfl := List.mem_singleton.mp hnew
        exact ⟨c, hc, rfl⟩

/-- One host's result adds issuers' keys to its own set, and none to the others. -/
theorem applyResult_pins (now : Time) (r : String × String × Probe) {sets : Table String TlsPinSet}
    {id : String} {s : TlsPinSet} (hget : sets.get id = some s) :
    ∃ s', (Db.applyResult now sets r).get id = some s' ∧ s'.monitoredHosts = s.monitoredHosts ∧
      ∀ pin ∈ s'.pins, pin.spki ∈ s.pins.map (·.spki) ∨ IssuerKey [r] id s pin.spki := by
  unfold Db.applyResult
  rw [Table.get_modify, hget, Option.map_some]
  refine ⟨_, rfl, ?_⟩
  split
  next hr =>
    obtain ⟨mark, hmark, hpins⟩ := apply_pins s r.2.1 r.2.2 now
    refine ⟨rfl, fun pin hpin => ?_⟩
    rw [hpins] at hpin
    rcases List.mem_append.mp hpin with hold | hadded
    · obtain ⟨old, hmem, rfl⟩ := List.mem_map.mp hold
      rw [(hmark old).1]
      exact Or.inl (List.mem_map_of_mem hmem)
    · split at hadded
      next htrusted =>
        exact Or.inr ⟨r, List.mem_cons_self, hr.1.symm, List.contains_iff_mem.mp hr.2, htrusted,
          mem_addedPins hadded⟩
      next => cases hadded
  next => exact ⟨rfl, fun pin hpin => Or.inl (List.mem_map_of_mem hpin)⟩

theorem applyResults_pins (now : Time) (results : List (String × String × Probe)) {id : String} :
    ∀ {sets : Table String TlsPinSet} {s : TlsPinSet}, sets.get id = some s →
      ∃ s', (results.foldl (Db.applyResult now) sets).get id = some s' ∧
        ∀ pin ∈ s'.pins, pin.spki ∈ s.pins.map (·.spki) ∨ IssuerKey results id s pin.spki := by
  induction results with
  | nil => exact fun {sets s} hget => ⟨s, hget, fun pin hpin => Or.inl (List.mem_map_of_mem hpin)⟩
  | cons r results ih =>
    intro sets s hget
    obtain ⟨s₁, hget₁, hhosts, hpins₁⟩ := applyResult_pins now r hget
    obtain ⟨s', hget', hpins'⟩ := ih hget₁
    refine ⟨s', hget', fun pin hpin => ?_⟩
    rcases hpins' pin hpin with hold | ⟨r', hmem, hid, hhost, hchain⟩
    · obtain ⟨pin₁, hmem₁, hspki⟩ := List.mem_map.mp hold
      rw [← hspki]
      exact (hpins₁ pin₁ hmem₁).imp_right fun hnew => hnew.mono (by simp)
    · exact Or.inr ⟨r', List.mem_cons_of_mem r hmem, hid, hhosts ▸ hhost, hchain⟩

/-- Publishing leaves the sets alone. -/
theorem runPinWatch_sets (db : Db) (results : List (String × String × Probe))
    (signer : Option String) (now : Time) :
    (db.runPinWatch results signer now).sets = results.foldl (Db.applyResult now) db.sets := by
  unfold Db.runPinWatch
  dsimp only
  split
  · split <;> rfl
  · rfl

theorem watch_adds {db db' : Db} {results : List (String × String × Probe)}
    {signer : Option String} {now : Time} (hstep : step db (.watch results signer now) = some db')
    {id : String} {s s' : TlsPinSet} (hget : db.sets.get id = some s)
    (hget' : db'.sets.get id = some s') {pin : Pin} (hpin : pin ∈ s'.pins)
    (hnew : pin.spki ∉ s.pins.map (·.spki)) : IssuerKey results id s pin.spki := by
  obtain rfl := Option.some.inj hstep
  obtain ⟨stored, hstored, hpins⟩ := applyResults_pins now results hget
  rw [runPinWatch_sets, hstored] at hget'
  obtain rfl := Option.some.inj hget'
  exact (hpins pin hpin).resolve_left hnew

/-- Documents are safe to publish. -/
theorem publication_safe {sets : Table String TlsPinSet} {ls : List Label} {db : Db}
    (hsets : sets.Forall fun _ s => s.publishedPins ≠ []) (hrun : FreeRun step ⟨sets, []⟩ ls db) :
    (db.signings.map (·.document.serial)).Pairwise (· < ·) ∧
    (∀ before signing, before ++ [signing] <+: db.signings →
      ∀ e ∈ signing.document.pinSets, e.pins ≠ [] ∧
        ∀ spki ∈ e.pins, ∃ earlier ∈ before ++ [signing], ∃ s,
          earlier.sets.get e.id = some s ∧ ∃ pin ∈ s.pins, pin.spki = spki ∧ pin.pending = false) ∧
    (db.signings.Pairwise fun a b =>
      ∀ e ∈ a.document.pinSets, ∀ e' ∈ b.document.pinSets, e.id = e'.id →
        e.expiresAt ≤ e'.expiresAt) ∧
    ∀ results signer now db', step db (.watch results signer now) = some db' →
      ∀ id s s', db.sets.get id = some s → db'.sets.get id = some s' →
        ∀ pin ∈ s'.pins, pin.spki ∉ s.pins.map (·.spki) →
          ∃ r ∈ results, r.1 = id ∧ r.2.1 ∈ s.monitoredHosts ∧ r.2.2.status = .trusted ∧
            ∃ c ∈ r.2.2.chain.tail, c.spki = pin.spki := by
  have h := sound_of_run hsets hrun
  refine ⟨?_, ?_, ?_, ?_⟩
  · rw [List.pairwise_map]
    exact h.follows.imp fun hab => hab.1
  · intro before signing hstarts e he
    obtain ⟨hne, hbacked⟩ := h.backed before signing hstarts e he
    refine ⟨hne, fun spki hspki => ?_⟩
    obtain ⟨earlier, hmem, s, hget, hpub⟩ := hbacked spki hspki
    obtain ⟨pin, hpin, heq⟩ := List.mem_map.mp hpub
    obtain ⟨hstored, hpending⟩ := List.mem_filter.mp hpin
    exact ⟨earlier, hmem, s, hget, pin, hstored, heq, by simpa using hpending⟩
  · exact h.follows.imp fun hab => hab.2
  · intro results signer now db' hstep id s s' hget hget' pin hpin hnew
    exact watch_adds hstep hget hget' hpin hnew

/-! ### A run -/

/-- A set with one published pin, watched at one host. -/
def watchedSet : TlsPinSet :=
  { domains := [⟨"ntust.edu.tw", true⟩]
    pins := [⟨"oldCA", "CN=Old CA", none, none, .migration, false⟩]
    expiresAt := 100 * DAY
    monitoredHosts := ["moodle.ntust.edu.tw"]
    autoPublish := true
    watchResults := Table.empty }

def watchedSets : Table String TlsPinSet := Table.empty.set "ntust" watchedSet

theorem watchedSets_published : watchedSets.Forall fun _ s => s.publishedPins ≠ [] := by
  refine Table.Forall.empty.set ?_
  decide

/-- What a probe of the host found: a trusted chain with these keys, leaf first. -/
def foundChain (keys : List String) : String × String × Probe :=
  ("ntust", "moodle.ntust.edu.tw",
    ⟨.trusted, keys.map fun spki => ⟨spki, "CN=CA", 0, 0, spki⟩, none, false⟩)

/-- The first document, then one with the pin of the new authority, then the current one again. -/
theorem publication_safe_of_rotation :
    ∃ db, exec step ⟨watchedSets, []⟩
        [.ensureCurrent (some "key") DAY,
          .watch [foundChain ["leaf", "newCA"]] (some "key") (2 * DAY),
          .extendExpiry "ntust" (200 * DAY) none (3 * DAY),
          .resign (some "key") (3 * DAY)] = some db ∧
      db.signings.map (fun s => s.document.pinSets.map (·.pins)) =
        [[["oldCA"]], [["oldCA", "newCA"]], [["oldCA", "newCA"]]] ∧
      (db.signings.map (·.document.serial)).Pairwise (· < ·) := by
  obtain ⟨db, hexec, hpins⟩ : ∃ db, exec step ⟨watchedSets, []⟩
        [.ensureCurrent (some "key") DAY,
          .watch [foundChain ["leaf", "newCA"]] (some "key") (2 * DAY),
          .extendExpiry "ntust" (200 * DAY) none (3 * DAY),
          .resign (some "key") (3 * DAY)] = some db ∧
      db.signings.map (fun s => s.document.pinSets.map (·.pins)) =
        [[["oldCA"]], [["oldCA", "newCA"]], [["oldCA", "newCA"]]] := ⟨_, rfl, by decide⟩
  exact ⟨db, hexec, hpins, (publication_safe watchedSets_published (run_of_exec hexec)).1⟩

/-- An authority may certify its own key: the watcher pins it, and so the key of that leaf. -/
theorem watcher_pins_leaf_key :
    ¬ ∀ (sets : Table String TlsPinSet) (ls : List Label) (db : Db),
      (sets.Forall fun _ s => s.publishedPins ≠ []) → FreeRun step ⟨sets, []⟩ ls db →
      ∀ results signer now db', step db (.watch results signer now) = some db' →
        ∀ id s s', db.sets.get id = some s → db'.sets.get id = some s' →
          ∀ pin ∈ s'.pins, pin.spki ∉ s.pins.map (·.spki) →
            ∀ r ∈ results, r.1 = id → ∀ leaf ∈ r.2.2.chain.head?, pin.spki ≠ leaf.spki := by
  intro h
  obtain ⟨db', hstep, s', hget', pin, hpin, hspki⟩ :
      ∃ db', step ⟨watchedSets, []⟩ (.watch [foundChain ["newCA", "newCA"]] none DAY) = some db' ∧
        ∃ s', db'.sets.get "ntust" = some s' ∧ ∃ pin ∈ s'.pins, pin.spki = "newCA" := by
    refine ⟨_, rfl, _, rfl, ?_⟩
    decide
  refine h watchedSets [] ⟨watchedSets, []⟩ watchedSets_published Run.nil
    [foundChain ["newCA", "newCA"]] none DAY db' hstep "ntust" watchedSet s' rfl hget' pin hpin ?_
    _ List.mem_cons_self rfl _ rfl hspki
  rw [hspki]
  decide

end TigerDuck.TlsPins
